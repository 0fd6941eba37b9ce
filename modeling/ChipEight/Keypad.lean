import ChipEight.Instruction.Basic

/-!
# The keypad

Sixteen keys, named by the hexadecimal digits. A keypad is the set of those that are down.
-/

namespace ChipEight

/-- One of the keys 0 to F. -/
abbrev Key := Fin 16

/-- Which keys are down. -/
structure Keypad where
  down : Vector Bool 16
  deriving DecidableEq

namespace Keypad

/-- No key is down. -/
def released : Keypad := ⟨Vector.replicate 16 false⟩

/-- Whether a key is down. -/
def isDown (p : Keypad) (k : Key) : Bool := p.down[k]

/-- The first key that is down, in the order of their numbers. -/
def lowest? (p : Keypad) : Option Key := p.down.findFinIdx? id

/-- The keypad with one key put down or let go. -/
def put (p : Keypad) (k : Key) (isDown : Bool) : Keypad := ⟨p.down.set k isDown⟩

theorem isDown_released (k : Key) : released.isDown k = false := by
  simp [isDown, released]

theorem isDown_put (p : Keypad) (k j : Key) (b : Bool) :
    (p.put k b).isDown j = if j = k then b else p.isDown j := by
  simp only [isDown, put, Fin.getElem_fin, Vector.getElem_set]
  by_cases h : j = k
  · simp [h]
  · rw [if_neg (fun e => h (Fin.ext e.symm)), if_neg h]

/-- **The lowest key is down, and no key below it is.** -/
theorem lowest?_eq_some_iff (p : Keypad) (k : Key) :
    p.lowest? = some k ↔ p.isDown k = true ∧ ∀ j < k, p.isDown j = false := by
  unfold lowest? Vector.findFinIdx?
  rw [Option.map_eq_some_iff]
  constructor
  · rintro ⟨i, hi, rfl⟩
    obtain ⟨h1, h2⟩ := Array.findFinIdx?_eq_some_iff.1 hi
    refine ⟨h1, fun j hj => ?_⟩
    have := h2 (j.cast p.down.size_toArray.symm) hj
    simpa [isDown] using this
  · rintro ⟨h1, h2⟩
    refine ⟨k.cast p.down.size_toArray.symm,
      Array.findFinIdx?_eq_some_iff.2 ⟨h1, fun j hj => ?_⟩, rfl⟩
    have := h2 (j.cast p.down.size_toArray) hj
    simpa [isDown] using this

theorem lowest?_eq_none_iff (p : Keypad) : p.lowest? = none ↔ ∀ k, p.isDown k = false := by
  unfold lowest? Vector.findFinIdx?
  rw [Option.map_eq_none_iff, Array.findFinIdx?_eq_none_iff]
  constructor
  · intro h k
    have := h p.down[k] (by simp)
    simpa [isDown] using this
  · intro h b hb
    obtain ⟨k, hk, rfl⟩ := Array.mem_iff_getElem.1 hb
    have := h ⟨k, by simpa using hk⟩
    simpa [isDown] using this

end Keypad

end ChipEight
