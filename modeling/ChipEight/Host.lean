import ChipEight.Keypad

/-!
# The host

A machine cannot know which keys are down, nor roll a random byte. It asks its host, and these
are the only two questions there are: pictures, sound and pace are the host's own business, for
which it looks at the machine from outside.

Asking may change the host, so each answer comes with the host to ask next.
-/

namespace ChipEight

/-- Something that answers a machine's questions. -/
class Host (σ : Type) where
  /-- Which keys are down now. -/
  keys : σ → Keypad × σ
  /-- The next random byte. -/
  random : σ → UInt8 × σ

/-- A host without any input: no key is ever down and every random byte is zero. -/
structure Headless where
  deriving DecidableEq

instance : Host Headless where
  keys h := (.released, h)
  random h := (0, h)

/-- A host whose answers are laid down beforehand: the keys that are down, and random bytes
that come round in order. -/
structure Scripted where
  keypad : Keypad
  bytes : Array UInt8
  /-- Where in `bytes` the next random byte stands. -/
  cursor : Nat

namespace Scripted

/-- A script from its keys and its random bytes, starting with the first of them. -/
def start (keypad : Keypad) (bytes : Array UInt8) : Scripted := ⟨keypad, bytes, 0⟩

instance : Host Scripted where
  keys s := (s.keypad, s)
  random s := (s.bytes.getD s.cursor 0, { s with cursor := (s.cursor + 1) % s.bytes.size })

/-- The script with one key put down or let go. -/
def put (s : Scripted) (k : Key) (isDown : Bool) : Scripted :=
  { s with keypad := s.keypad.put k isDown }

/-- The script with other random bytes, starting with the first of them. -/
def reseed (s : Scripted) (bytes : Array UInt8) : Scripted := start s.keypad bytes

end Scripted

/-- A host that counts the questions put to it. -/
structure Counted (σ : Type) where
  inner : σ
  /-- How often the keys were asked for. -/
  polls : Nat
  /-- How many random bytes were asked for. -/
  rolls : Nat

namespace Counted

variable {σ : Type}

/-- A host that has not been asked anything yet. -/
def start (inner : σ) : Counted σ := ⟨inner, 0, 0⟩

instance [Host σ] : Host (Counted σ) where
  keys c :=
    let (keypad, inner) := Host.keys c.inner
    (keypad, { c with inner := inner, polls := c.polls + 1 })
  random c :=
    let (byte, inner) := Host.random c.inner
    (byte, { c with inner := inner, rolls := c.rolls + 1 })

end Counted

end ChipEight
