import ChipEight.Host
import ChipEight.Machine.Basic

/-!
# Setting a machine up

A machine needs a host and a program. They may come in any order, and more than once, in which
case the last of each counts; what was replaced does not matter any more, not even a program that
would have been too large. Whether anything is missing is found out at the end.
-/

namespace ChipEight

/-- What has been provided so far. -/
structure Setup (σ : Type) where
  host : Option σ
  program : Option (Array UInt8)

namespace Setup

variable {σ : Type}

/-- Nothing yet. -/
def empty : Setup σ := ⟨none, none⟩

/-- Provide a host. -/
def withHost (s : Setup σ) (h : σ) : Setup σ := { s with host := some h }

/-- Provide a program. -/
def withProgram (s : Setup σ) (program : Array UInt8) : Setup σ :=
  { s with program := some program }

/-- The machine, loaded, and its host. A missing host is reported before a missing program, and
both before a program that is too large. -/
def build (s : Setup σ) (size : Nat) : Except Error (Machine size × σ) :=
  match s.host, s.program with
  | none, _ => .error .missingHost
  | some _, none => .error .missingProgram
  | some h, some program => (Machine.load size program).map (·, h)

/-- A later host replaces an earlier one. -/
theorem withHost_withHost (s : Setup σ) (h h' : σ) :
    (s.withHost h).withHost h' = s.withHost h' := rfl

/-- A later program replaces an earlier one. -/
theorem withProgram_withProgram (s : Setup σ) (p p' : Array UInt8) :
    (s.withProgram p).withProgram p' = s.withProgram p' := rfl

/-- Host and program do not get in each other's way. -/
theorem withHost_withProgram (s : Setup σ) (h : σ) (p : Array UInt8) :
    (s.withHost h).withProgram p = (s.withProgram p).withHost h := rfl

end Setup

end ChipEight
