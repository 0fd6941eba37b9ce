import ChipEight.Machine.Step

/-!
# Running a program

A run repeats steps until the program counter has left the program, until a step does not
succeed, or until as many steps are done as one run may take. The end of the program is looked
for before each step, so nothing behind it is ever executed, and a run that is given no steps
does not look.

The timers stand still meanwhile: ticking them is the host's part, between runs.
-/

namespace ChipEight

/-- Why a run gives control back. -/
inductive Halt where
  /-- The program counter has left the program. -/
  | endOfProgram
  /-- A key is awaited and none is down. -/
  | awaitingKey
  /-- A step failed. -/
  | fault (e : Error)
  /-- The run has taken all the steps it may. -/
  | stepLimit
  deriving DecidableEq

/-- A run made: why it halted, the machine and its host afterwards, and what was gathered on
the way. -/
structure Run (size : Nat) (σ α : Type) where
  halt : Halt
  machine : Machine size
  host : σ
  gathered : α

namespace Machine

variable {size : Nat} {σ α : Type}

/-- The most steps that one run takes, two to the twentieth. -/
def maxRunSteps : Nat := 1048576

/-- Run for at most `budget` steps. `gather` sees what there is to tell of each step, and where the
program counter was before it. -/
def runFor [Host σ] (gather : α → UInt16 → Account → α) :
    (budget : Nat) → α → Machine size → σ → Run size σ α
  | 0, a, m, h => ⟨.stepLimit, m, h, a⟩
  | budget + 1, a, m, h =>
    if m.programEnd ≤ m.pc.toNat then
      ⟨.endOfProgram, m, h, a⟩
    else
      let pc := m.pc
      let s := m.step h
      let a := gather a pc s.toAccount
      match s.event.outcome with
      | .done => runFor gather budget a s.machine s.host
      | .blocked => ⟨.awaitingKey, s.machine, s.host, a⟩
      | .failed e => ⟨.fault e, s.machine, s.host, a⟩

/-- Run the program. -/
def run [Host σ] (m : Machine size) (h : σ) : Run size σ Unit :=
  m.runFor (fun _ _ _ => ()) maxRunSteps () h

/-- Run the program and add the records of its steps to `log`. -/
def runLogged [Host σ] (log : Array Record) (m : Machine size) (h : σ) :
    Run size σ (Array Record) :=
  m.runFor (fun log _ t => log.appendList t.records) maxRunSteps log h

/-- What is gathered has no influence on the run, so a log can be kept or not. -/
theorem runFor_gather {β : Type} [Host σ] (f : α → UInt16 → Account → α)
    (g : β → UInt16 → Account → β) (budget : Nat) (a : α) (b : β) (m : Machine size) (h : σ) :
    (m.runFor f budget a h).halt = (m.runFor g budget b h).halt ∧
      (m.runFor f budget a h).machine = (m.runFor g budget b h).machine ∧
      (m.runFor f budget a h).host = (m.runFor g budget b h).host := by
  induction budget generalizing a b m h with
  | zero => exact ⟨rfl, rfl, rfl⟩
  | succ budget ih =>
    simp only [runFor]
    split
    · exact ⟨rfl, rfl, rfl⟩
    · split
      · exact ih ..
      · exact ⟨rfl, rfl, rfl⟩
      · exact ⟨rfl, rfl, rfl⟩

end Machine

end ChipEight
