import ChipEight.Proofs.Plain.Instructions

/-!
# A step on plain data

On plain data a step does not look whether an instruction can be carried out before it begins with
it. It executes the instruction as far as that goes, and what has been written by then stays
written. `step_plain` says that it comes to the same machine nevertheless, and notes the same in
the same words.
-/

namespace ChipEight

open Checked

variable {limit size : Nat} {σ : Type} [Host σ]

/-- The result of what cannot block. -/
def Outcome.result : Outcome → Except Error Unit
  | .failed e => .error e
  | _ => .ok ()

/-- A step on plain data, with its records as lines. -/
def Step.plain (t : Step size σ) : Outcome × Plain × σ × List String :=
  (t.event.outcome, t.machine.plain, t.host, t.records.map Record.line)

namespace Plain

theorem findIdx?_keys (keypad : Keypad) :
    keypad.down.toList.findIdx? id = keypad.lowest?.map Fin.val := by
  cases hk : keypad.lowest? with
  | none =>
    have hup := keypad.lowest?_eq_none_iff.mp hk
    rw [Option.map_none, List.findIdx?_eq_none_iff]
    intro b hb
    obtain ⟨k, hlt, rfl⟩ := List.mem_iff_getElem.mp hb
    rw [Vector.length_toList] at hlt
    exact (Vector.getElem_toList _).trans (hup ⟨k, hlt⟩)
  | some k =>
    obtain ⟨hdown, hup⟩ := (keypad.lowest?_eq_some_iff k).mp hk
    rw [Option.map_some, List.findIdx?_eq_some_iff_getElem]
    refine ⟨by rw [Vector.length_toList]; exact k.isLt, ?_, fun j hj => ?_⟩
    · exact (Vector.getElem_toList _).trans hdown
    · have := hup ⟨j, Nat.lt_trans hj k.isLt⟩ hj
      rw [Vector.getElem_toList]
      exact Bool.eq_false_iff.mp this

theorem poll_plain (m : Machine size) (h : σ) (x : Register) :
    m.plain.poll h (UInt8.ofNat x.val) = .ok (m.poll h x).plain := by
  have hb : (UInt8.ofNat x.val).toNat = x.val := by rw [UInt8.toNat_ofNat']; omega
  rw [poll, Machine.poll]
  dsimp only
  rw [findIdx?_keys, hb]
  cases (Host.keys h).1.lowest? with
  | none => rfl
  | some k =>
    dsimp only [Option.map_some]
    rw [put_plain m hb, ok_bind]
    rfl

/-- An instruction that is read comes to what the machine carries out. -/
theorem result_eq (m : Machine size) (h : σ) (w : UInt16) (i : Instruction) :
    m.result h i
      = ((m.carryOut h w i).event.outcome.result, (m.carryOut h w i).machine.plain,
          (m.carryOut h w i).host, (m.carryOut h w i).records.map Record.line) := by
  rw [Machine.result, Machine.carryOut]
  cases m.obstacle? i with
  | some e => rfl
  | none => rfl

theorem cycle_plain (hlimit : 65552 ≤ limit) (hsize : 256 ≤ size) (m : Machine size) (h : σ) :
    m.plain.cycle limit size h
      = .ok ((m.dispatch h).event.outcome.result, (m.dispatch h).machine.plain,
          (m.dispatch h).host, (m.dispatch h).records.map Record.line) := by
  rw [cycle, fetch_plain m hlimit hsize, Machine.dispatch, Machine.next]
  cases m.fetch with
  | error e => rfl
  | ok w =>
    rw [ok_bind]
    dsimp only
    cases hd : Instruction.decode w with
    | error e => rfl
    | ok i =>
      dsimp only
      rw [apply_plain m h hlimit hsize (Instruction.decode_eq_ok_iff.mp hd), ok_bind,
        result_eq m h w i]
      rfl

/-- **On plain data a step comes to the same, and writes the same lines.** -/
theorem step_plain (hlimit : 65552 ≤ limit) (hsize : 256 ≤ size) (m : Machine size) (h : σ) :
    m.plain.step limit size h = .ok (m.step h).plain := by
  cases hx : m.awaiting with
  | some x =>
    have ha : m.plain.awaiting = some (UInt8.ofNat x.val) := congrArg (Option.map _) hx
    rw [step, ha, Machine.step, hx]
    exact poll_plain m h x
  | none =>
    have ha : m.plain.awaiting = none := congrArg (Option.map _) hx
    have hb : (m.dispatch h).event.outcome ≠ .blocked := m.dispatch_ne_blocked h
    rw [step, ha, Machine.step, hx]
    dsimp only
    rw [cycle_plain hlimit hsize, ok_bind, Step.noteFailure]
    cases ho : (m.dispatch h).event.outcome with
    | done =>
      rw [Step.plain, ho]
      rfl
    | blocked => exact absurd ho hb
    | failed e =>
      rw [Step.plain, List.map_append, ho]
      rfl

end Plain

end ChipEight
