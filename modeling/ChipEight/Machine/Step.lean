import ChipEight.Instruction.Encoding
import ChipEight.Log
import ChipEight.Machine.Execute

/-!
# One step

A step either looks for the key that is awaited, or reads the word at the program counter and
executes it. What happened is an `Event`, and what was noted of it for a log is beside it, in the
order in which it was noted: the instruction before anything comes of it, the wait when it has
begun, the failure at the end, each with the program counter as it is at that point.

**A step that does not succeed leaves the machine as it was.** There is one place where
something changes without an instruction (a key arrives), and one where an instruction is carried
out, and both are successes.
-/

namespace ChipEight

/-- What happened in a step. -/
inductive Event where
  /-- A key is awaited and none is down. -/
  | blocked
  /-- The awaited key went into `x`. -/
  | keyStored (key : Key) (x : Register)
  /-- There is no instruction at the program counter. -/
  | unreadable (e : Error)
  /-- An instruction was read, and something stood in its way. -/
  | refused (word : UInt16) (i : Instruction) (e : Error)
  /-- An instruction was carried out. -/
  | executed (word : UInt16) (i : Instruction)
  deriving DecidableEq

/-- How a step ends, for whoever asked for it. -/
inductive Outcome where
  | done
  /-- There is a key to wait for; ask again later. -/
  | blocked
  | failed (e : Error)
  deriving DecidableEq

/-- How a step ends in which `e` happened. -/
def Event.outcome : Event → Outcome
  | .blocked => .blocked
  | .keyStored _ _ => .done
  | .unreadable e => .failed e
  | .refused _ _ e => .failed e
  | .executed _ _ => .done

/-- What there is to tell of a step. -/
structure Account where
  event : Event
  /-- What was noted on the way, in order. -/
  records : List Record

/-- A step taken: what there is to tell of it, and the machine and its host afterwards. -/
structure Step (size : Nat) (σ : Type) extends Account where
  machine : Machine size
  host : σ

/-- The step, with a note of its failure if it has failed: the error, and where the program counter
is by then. -/
def Step.noteFailure {size : Nat} {σ : Type} (t : Step size σ) : Step size σ :=
  match t.event.outcome with
  | .failed e => { t with records := t.records ++ [.failed t.machine.pc e] }
  | _ => t

namespace Machine

variable {size : Nat} {σ : Type}

/-- The word at the program counter, its high byte first. -/
def fetch (m : Machine size) : Except Error UInt16 :=
  match Memory.overrun? size m.pc 2 with
  | some e => .error e
  | none =>
    .ok ((m.memory.byte m.pc.toNat).toUInt16 * 256 + (m.memory.byte (m.pc.toNat + 1)).toUInt16)

/-- The instruction at the program counter, with the word it was read from. -/
def next (m : Machine size) : Except Error (UInt16 × Instruction) :=
  match m.fetch with
  | .error e => .error e
  | .ok word =>
    match Instruction.decode word with
    | .error e => .error e
    | .ok i => .ok (word, i)

/-- The machine after the key that `x` awaits has come. -/
def storeKey (m : Machine size) (key : Key) (x : Register) : Machine size :=
  { m.put x (UInt8.ofNat key.val) with awaiting := none, pc := m.pc + 2 }

/-- What is noted when an instruction has been carried out: that a wait has begun. -/
def aftermath (m : Machine size) : Instruction → List Record
  | .awaitKey x => [.waiting m.pc x]
  | _ => []

/-- Look for the key that `x` awaits. The host is asked once for its keys, and of several that are
down the lowest counts. -/
def poll [Host σ] (m : Machine size) (h : σ) (x : Register) : Step size σ :=
  let (keypad, h) := Host.keys h
  match keypad.lowest? with
  | none => ⟨⟨.blocked, []⟩, m, h⟩
  | some key => ⟨⟨.keyStored key x, [.keyStored key x]⟩, m.storeKey key x, h⟩

/-- Carry out an instruction that was read, unless something stands in its way. -/
def carryOut [Host σ] (m : Machine size) (h : σ) (word : UInt16) (i : Instruction) :
    Step size σ :=
  match m.obstacle? i with
  | some e => ⟨⟨.refused word i e, []⟩, m, h⟩
  | none =>
    let (m, h) := m.perform h i
    ⟨⟨.executed word i, m.aftermath i⟩, m, h⟩

/-- Read the instruction at the program counter, make a note of it, and carry it out. -/
def dispatch [Host σ] (m : Machine size) (h : σ) : Step size σ :=
  match m.next with
  | .error e => ⟨⟨.unreadable e, []⟩, m, h⟩
  | .ok (word, i) =>
    let note := Record.dispatched m.pc word i
    let t := m.carryOut h word i
    { t with records := note :: t.records }

/-- Take one step. -/
def step [Host σ] (m : Machine size) (h : σ) : Step size σ :=
  match m.awaiting with
  | some x => m.poll h x
  | none => (m.dispatch h).noteFailure

end Machine

/-- The records of an event, if the step began at `pc`. -/
def Event.records (pc : UInt16) : Event → List Record
  | .blocked => []
  | .keyStored key x => [.keyStored key x]
  | .unreadable e => [.failed pc e]
  | .refused word i e => [.dispatched pc word i, .failed pc e]
  | .executed word (.awaitKey x) => [.dispatched pc word (.awaitKey x), .waiting pc x]
  | .executed word i => [.dispatched pc word i]

/-- What there is to tell of a step that began at `pc`, as far as its event tells. -/
def Event.account (pc : UInt16) (e : Event) : Account := ⟨e, e.records pc⟩

@[simp]
theorem Event.event_account (pc : UInt16) (e : Event) : (e.account pc).event = e := rfl

end ChipEight
