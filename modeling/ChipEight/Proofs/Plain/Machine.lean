import ChipEight.Proofs.Plain.Screen
import ChipEight.Proofs.Session

/-!
# The machine on plain data

A `Machine` cannot be asked for a register that it does not have. Its operands are
numbers below sixteen by their type, its display has its 256 bytes, and where an
address may be too great there is a default to read. So nothing is ever out of
range there, and that says little about whether anything could be.

`Plain` is the same machine without that help. Registers, memory and display are
lists of any length. A register is named by a byte, which is cut out of the word of
the instruction and used as it is. The display is a stretch of memory, one bit for
each pixel. Every access is `Checked`, in the place where it is made: there are `size`
bytes of memory, and addresses and lengths have to stay below `limit`.

Nor is anything looked at beforehand. An instruction that fails gives back the machine and the host
as they are when it does, with whatever it has written until then. And the lines of the log are
written where the work is done, with the program counter and the operands that are at hand there.
-/

namespace ChipEight

open Checked

/-- A machine of plain numbers and lists. -/
structure Plain where
  registers : List UInt8
  index : UInt16
  pc : UInt16
  memory : List UInt8
  stack : List UInt16
  delay : UInt8
  sound : UInt8
  awaiting : Option UInt8
  programLength : Nat

/-- Go on with what was not refused. -/
def Checked.andThen {α β : Type} (x : Checked (Except Error α))
    (f : α → Checked (Except Error β)) : Checked (Except Error β) := do
  match ← x with
  | .error e => pure (.error e)
  | .ok a => f a

namespace Plain

variable (limit size : Nat)

/-! ## Operands

As the fields of a word: the second and the third digit name registers, the last one counts rows.
-/

/-- The digit of a word that has `shift` bits to its right. -/
def digit (w shift : UInt16) : UInt8 := (w >>> shift &&& 0x000F).toUInt8

def digitX (w : UInt16) : UInt8 := digit w 8

def digitY (w : UInt16) : UInt8 := digit w 4

def lastDigit (w : UInt16) : UInt8 := digit w 0

def lowByte (w : UInt16) : UInt8 := (w &&& 0x00FF).toUInt8

def address (w : UInt16) : UInt16 := w &&& 0x0FFF

/-! ## Registers and memory -/

def get (m : Plain) (x : UInt8) : Checked UInt8 := element m.registers x.toNat

def put (m : Plain) (x b : UInt8) : Checked Plain := do
  let registers ← replace m.registers x.toNat b
  pure { m with registers := registers }

/-- Where the `length` bytes from `start` on are, if memory has them. -/
def range (start : UInt16) (length : Nat) : Checked (Except Error (Nat × Nat)) := do
  let stop ← add limit start.toNat length
  pure (if stop ≤ size then .ok (start.toNat, stop)
    else .error (.addressOutOfRange (max start.toNat size)))

/-- The bytes of the display. -/
def screen (m : Plain) : Checked (List UInt8) := do
  let bytes ← stretch m.memory (Layout.displayStart size) size
  if bytes.length = 256 then pure bytes else .error (.display bytes.length)

def putScreen (m : Plain) (bytes : List UInt8) : Checked Plain := do
  let memory ← copy m.memory (Layout.displayStart size) size bytes
  pure { m with memory := memory }

/-! ## Instructions -/

/-- Where execution goes on after an instruction. -/
inductive Flow where
  | next
  | skip
  | jump (target : UInt16)
  | waitForKey (x : UInt8)

def Flow.skipIf (c : Bool) : Flow := if c then .skip else .next

def fetch (m : Plain) : Checked (Except Error UInt16) :=
  (range limit size m.pc 2).andThen fun (start, stop) => do
    let bytes ← stretch m.memory start stop
    let high ← element bytes 0
    let low ← element bytes 1
    pure (.ok (high.toUInt16 * 256 + low.toUInt16))

variable {σ : Type} [Host σ]

/-- Go on with the `length` bytes from the index register on, where memory has them. Where it does
not, that is the error, and machine and host are left as they are by then. -/
def reach (m : Plain) (h : σ) (length : Nat)
    (f : Nat → Nat → Checked (Except Error Flow × Plain × σ)) :
    Checked (Except Error Flow × Plain × σ) := do
  match ← range limit size m.index length with
  | .error e => pure (.error e, m, h)
  | .ok (start, stop) => f start stop

/-- Execute the instruction that the word `w` is read as. The instruction only tells what to do:
its operands are taken from the word. -/
def execute (m : Plain) (h : σ) (w : UInt16) :
    Instruction → Checked (Except Error Flow × Plain × σ)
  | .clear => do
    let bytes ← m.screen size
    let m ← m.putScreen size (bytes.map fun _ => 0)
    pure (.ok .next, m, h)
  | .ret =>
    match m.stack with
    | [] => pure (.error .stackEmpty, m, h)
    | a :: stack => pure (.ok (.jump a), { m with stack := stack }, h)
  | .jump _ => pure (.ok (.jump (address w)), m, h)
  | .call _ =>
    if m.stack.length < 12 then
      pure (.ok (.jump (address w)), { m with stack := (m.pc + 2) :: m.stack }, h)
    else pure (.error .stackFull, m, h)
  | .skipIfByte _ _ => do
    let a ← m.get (digitX w)
    pure (.ok (.skipIf (a == lowByte w)), m, h)
  | .skipUnlessByte _ _ => do
    let a ← m.get (digitX w)
    pure (.ok (.skipIf (a != lowByte w)), m, h)
  | .skipIfEqual _ _ => do
    let a ← m.get (digitX w)
    let b ← m.get (digitY w)
    pure (.ok (.skipIf (a == b)), m, h)
  | .set _ _ => do
    let m ← m.put (digitX w) (lowByte w)
    pure (.ok .next, m, h)
  | .increase _ _ => do
    let a ← m.get (digitX w)
    let m ← m.put (digitX w) (a + lowByte w)
    pure (.ok .next, m, h)
  | .combine op _ _ => do
    let a ← m.get (digitX w)
    let b ← m.get (digitY w)
    let m ← m.put (digitX w) (op.value a b)
    match op.flag? a b with
    | none => pure (.ok .next, m, h)
    | some c =>
      let m ← m.put 15 c.toUInt8
      pure (.ok .next, m, h)
  | .skipUnlessEqual _ _ => do
    let a ← m.get (digitX w)
    let b ← m.get (digitY w)
    pure (.ok (.skipIf (a != b)), m, h)
  | .setIndex _ => pure (.ok .next, { m with index := address w }, h)
  | .jumpOffset _ => do
    let a ← m.get 0
    let target ← add 65536 (address w).toNat a.toNat
    pure (.ok (.jump (UInt16.ofNat target)), m, h)
  | .random _ _ => do
    let (byte, h) := Host.random h
    let m ← m.put (digitX w) (byte &&& lowByte w)
    pure (.ok .next, m, h)
  | .draw _ _ _ =>
    m.reach limit size h (lastDigit w).toNat fun start stop => do
      -- the rows go through a buffer that is as long as the longest sprite
      let buffer ← stretch (List.replicate 15 0) 0 (stop - start)
      let rows ← stretch m.memory start stop
      let sprite ← copy buffer 0 buffer.length rows
      let a ← m.get (digitX w)
      let b ← m.get (digitY w)
      let bytes ← m.screen size
      let (bytes, hit) ← Screen.draw limit bytes a.toNat b.toNat sprite
      let m ← m.putScreen size bytes
      let m ← m.put 15 hit.toUInt8
      pure (.ok .next, m, h)
  | .skipIfKey _ => do
    let a ← m.get (digitX w)
    let (keypad, h) := Host.keys h
    let down ← element keypad.down.toList (a &&& 0x0F).toNat
    pure (.ok (.skipIf down), m, h)
  | .skipUnlessKey _ => do
    let a ← m.get (digitX w)
    let (keypad, h) := Host.keys h
    let down ← element keypad.down.toList (a &&& 0x0F).toNat
    pure (.ok (.skipIf !down), m, h)
  | .getDelay _ => do
    let m ← m.put (digitX w) m.delay
    pure (.ok .next, m, h)
  | .awaitKey _ => pure (.ok (.waitForKey (digitX w)), m, h)
  | .setDelay _ => do
    let a ← m.get (digitX w)
    pure (.ok .next, { m with delay := a }, h)
  | .setSound _ => do
    let a ← m.get (digitX w)
    pure (.ok .next, { m with sound := a }, h)
  | .addIndex _ => do
    let a ← m.get (digitX w)
    let (sum, wrapped) := addOverflowing m.index a.toUInt16
    let m := { m with index := addSaturating m.index a.toUInt16 }
    let m ← m.put 15 (wrapped || decide (size ≤ sum.toNat)).toUInt8
    pure (.ok .next, m, h)
  | .pointGlyph _ => do
    let a ← m.get (digitX w)
    let offset ← mul limit (a &&& 0x0F).toNat Font.glyphHeight
    let start ← add limit 0 offset
    pure (.ok .next, { m with index := UInt16.ofNat start }, h)
  | .writeDecimal _ =>
    m.reach limit size h 3 fun start stop => do
      let a ← m.get (digitX w)
      let memory ← copy m.memory start stop (decimalDigits a)
      pure (.ok .next, { m with memory := memory }, h)
  | .save _ => do
    let count ← add limit (digitX w).toNat 1
    m.reach limit size h count fun start stop => do
      let bytes ← stretch m.registers 0 count
      let memory ← copy m.memory start stop bytes
      pure (.ok .next, { m with memory := memory }, h)
  | .restore _ => do
    let count ← add limit (digitX w).toNat 1
    m.reach limit size h count fun start stop => do
      let bytes ← stretch m.memory start stop
      let registers ← copy m.registers 0 count bytes
      pure (.ok .next, { m with registers := registers }, h)

/-- The machine that goes on there, and the lines that this is worth. -/
def follow (m : Plain) : Flow → Plain × List String
  | .next => ({ m with pc := m.pc + 2 }, [])
  | .skip => ({ m with pc := m.pc + 4 }, [])
  | .jump target => ({ m with pc := target }, [])
  | .waitForKey x =>
    ({ m with awaiting := some x },
      [Level.debug.line ("pc=" ++ Record.place m.pc ++ ": waiting for a key for V"
        ++ Hex.upper 1 x.toNat)])

/-- Go on after an instruction, unless it has failed. -/
def settle : Except Error Flow × Plain × σ → Except Error Unit × Plain × σ × List String
  | (.error e, m, h) => (.error e, m, h, [])
  | (.ok flow, m, h) => (.ok (), (m.follow flow).1, h, (m.follow flow).2)

def apply (m : Plain) (h : σ) (w : UInt16) (i : Instruction) :
    Checked (Except Error Unit × Plain × σ × List String) := do
  pure (settle (← m.execute limit size h w i))

/-! ## Steps, runs and ticks -/

/-- Look for the key that register `x` awaits. -/
def poll (m : Plain) (h : σ) (x : UInt8) : Checked (Outcome × Plain × σ × List String) := do
  let (keypad, h) := Host.keys h
  match keypad.down.toList.findIdx? id with
  | none => pure (.blocked, m, h, [])
  | some k =>
    let line := Level.debug.line
      ("key " ++ Hex.upper 1 k ++ " pressed, stored in V" ++ Hex.upper 1 x.toNat)
    let m ← m.put x (UInt8.ofNat k)
    pure (.done, { m with awaiting := none, pc := m.pc + 2 }, h, [line])

/-- Read an instruction and apply it. -/
def cycle (m : Plain) (h : σ) : Checked (Except Error Unit × Plain × σ × List String) := do
  match ← m.fetch limit size with
  | .error e => pure (.error e, m, h, [])
  | .ok w =>
    match Instruction.decode w with
    | .error e => pure (.error e, m, h, [])
    | .ok i =>
      let line := Level.trace.line
        (Record.place m.pc ++ ": " ++ Hex.upper 4 w.toNat ++ " " ++ i.listing)
      let (result, m, h, lines) ← m.apply limit size h w i
      pure (result, m, h, line :: lines)

def step (m : Plain) (h : σ) : Checked (Outcome × Plain × σ × List String) :=
  match m.awaiting with
  | some x => m.poll h x
  | none => do
    match ← m.cycle limit size h with
    | (.ok (), m, h, lines) => pure (.done, m, h, lines)
    | (.error e, m, h, lines) =>
      let line := Level.warn.line ("pc=" ++ Record.place m.pc ++ ": " ++ e.message)
      pure (.failed e, m, h, lines ++ [line])

def runFor (programEnd : Nat) :
    (budget : Nat) → Plain → σ → Checked (Halt × Plain × σ × List String)
  | 0, m, h => pure (.stepLimit, m, h, [])
  | budget + 1, m, h =>
    if programEnd ≤ m.pc.toNat then pure (.endOfProgram, m, h, [])
    else do
      match ← m.step limit size h with
      | (.done, m, h, lines) =>
        let (halt, m, h, more) ← runFor programEnd budget m h
        pure (halt, m, h, lines ++ more)
      | (.blocked, m, h, lines) => pure (.awaitingKey, m, h, lines)
      | (.failed e, m, h, lines) => pure (.fault e, m, h, lines)

def run (m : Plain) (h : σ) : Checked (Halt × Plain × σ × List String) := do
  let programEnd ← add limit Layout.programStart m.programLength
  runFor limit size programEnd Machine.maxRunSteps m h

def countDown (timer : UInt8) : Checked (UInt8 × Tick) :=
  if 0 < timer then do
    let value ← sub timer.toNat 1
    pure (UInt8.ofNat value, if value = 0 then .finished else .on)
  else pure (timer, .off)

def tick (m : Plain) : Checked (Plain × Tick) := do
  let (delay, _) ← countDown m.delay
  let (sound, report) ← countDown m.sound
  pure ({ m with delay := delay, sound := sound }, report)

/-- Font and program are copied to where they belong, once the layout is found to be sound. -/
def load (program : List UInt8) : Checked (Except Error Plain) := do
  if ¬Layout.IsValid size then throw .layout
  let _ ← add limit (Layout.callStackStart size) Layout.stackBytes
  if Layout.capacity size < program.length then
    return .error (.programTooLarge program.length (Layout.capacity size))
  let memory ← copy (List.replicate size 0) 0 80 Font.table.toList
  let stop ← add limit Layout.programStart program.length
  let memory ← copy memory Layout.programStart stop program
  return .ok {
    registers := List.replicate 16 0
    index := 0
    pc := UInt16.ofNat Layout.programStart
    memory := memory
    stack := []
    delay := 60
    sound := 60
    awaiting := none
    programLength := program.length }

/-! ## From outside -/

/-- The pixel in column `x` of row `y`, if that is on the screen. -/
def pixel (m : Plain) (x y : Nat) : Checked (Option Bool) := do
  let bytes ← m.screen size
  Screen.pixel limit bytes x y

def isLit (m : Plain) (x y : Nat) : Checked Bool := do
  let p ← m.pixel limit size x y
  pure (p.getD false)

/-- What comes of a request: what it is answered with, and the lines that it adds to a log. -/
def request (m : Plain) (h : σ) : Request σ → Checked (Reply × Plain × σ × List String)
  | .move .step => do
    let (outcome, m, h, lines) ← m.step limit size h
    pure (.stepped outcome, m, h, lines)
  | .move .tick => do
    let (m, report) ← m.tick
    pure (.ticked report, m, h, [])
  | .move (.alter h) => pure (.altered, m, h, [])
  | .run => do
    let (halt, m, h, lines) ← m.run limit size h
    pure (.halted halt, m, h, lines)

def requests (m : Plain) (h : σ) :
    List (Request σ) → Checked (List Reply × Plain × σ × List String)
  | [] => pure ([], m, h, [])
  | r :: rs => do
    let (reply, m, h, lines) ← m.request limit size h r
    let (replies, m, h, more) ← requests m h rs
    pure (reply :: replies, m, h, lines ++ more)

end Plain

end ChipEight
