/-!
# Count-down timers

A timer holds one byte and goes down by one at each tick until it rests at zero. What a
tick reports is meant for a beeper: switch it on while the timer still runs, off when it
has just run out.
-/

namespace ChipEight

/-- What a tick finds. -/
inductive Tick where
  /-- The timer is still counting down. -/
  | on
  /-- The timer was at zero before. -/
  | off
  /-- The timer has just reached zero. -/
  | finished
  deriving DecidableEq

/-- A byte that counts down to zero. -/
structure Timer where
  value : UInt8
  deriving DecidableEq

namespace Timer

/-- What both timers hold when a program is loaded: one second at sixty ticks a second. -/
def initial : Timer := ⟨60⟩

/-- What the next tick of a timer reports. -/
def report (t : Timer) : Tick :=
  if t.value = 0 then .off else if t.value = 1 then .finished else .on

/-- The timer after a tick. -/
def next (t : Timer) : Timer := if t.value = 0 then t else ⟨t.value - 1⟩

/-- **A tick takes one off, and nothing off zero.** -/
theorem toNat_next (t : Timer) : t.next.value.toNat = t.value.toNat - 1 := by
  unfold next
  split
  · next h => simp [h]
  · next h =>
    have h1 : (1 : UInt8) ≤ t.value := by
      rw [UInt8.le_iff_toNat_le]
      have : t.value.toNat ≠ 0 := fun h0 => h (UInt8.toNat_inj.1 h0)
      simp only [UInt8.toNat_one]
      omega
    rw [UInt8.toNat_sub_of_le _ _ h1]
    rfl

end Timer

end ChipEight
