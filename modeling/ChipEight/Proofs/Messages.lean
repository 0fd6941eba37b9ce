import ChipEight.Error
import ChipEight.Proofs.Numerals

/-!
# What a message tells

A message is all that a reader of the log has of an error. It names the kind of error in words, and
the numbers that go with it as numerals in between, some decimal and some hexadecimal, of as
many digits as they need.

Two things could go wrong. Words and digits of two errors might run together to the same text, and
padding with zeros might hide how great a number is. `message_tells_error` says that neither
happens: the kind is settled by the first nine characters (`take_message`), and every numeral can be
told from what comes behind it (`Numeral.split`).
-/

namespace ChipEight

namespace Error

/-- The words that a message begins with, as far as it takes to tell the kinds apart. -/
def opening : Error → String
  | .unknownInstruction _ => "unknown o"
  | .stackFull => "cannot en"
  | .stackEmpty => "cannot re"
  | .addressOutOfRange _ => "address 0"
  | .programTooLarge _ _ => "program o"
  | .missingHost => "context n"
  | .missingProgram => "program n"

/-- A number as messages have it. -/
theorem numeral_four (n : Nat) : Numeral Hex.lowercase 4 (Hex.lower 4 n) n :=
  Hex.numeral_lower (by decide) n

theorem message_unknownInstruction (word : UInt16) :
    (unknownInstruction word).message
      = "unknown operation code 0x" ++ Hex.lower 4 word.toNat := rfl

theorem message_addressOutOfRange (a : Nat) :
    (addressOutOfRange a).message
      = "address 0x" ++ Hex.lower 4 a ++ " is out of address space" := rfl

theorem message_programTooLarge (l c : Nat) :
    (programTooLarge l c).message
      = "program of " ++ toString l ++ " bytes exceeds program memory of " ++ toString c
        ++ " bytes" := rfl

theorem take_message (e : Error) : e.message.toList.take 9 = e.opening.toList := by
  cases e with
  | stackFull | stackEmpty | missingHost | missingProgram => decide
  | unknownInstruction word =>
    rw [message_unknownInstruction, take_toList_append (by decide), opening]
    decide
  | addressOutOfRange a =>
    rw [message_addressOutOfRange, String.append_assoc, take_toList_append (by decide), opening]
    decide
  | programTooLarge l c =>
    simp only [message_programTooLarge, String.append_assoc]
    rw [take_toList_append (by decide), opening]
    decide

theorem opening_eq {e e' : Error} (h : e.message = e'.message) : e.opening = e'.opening := by
  rw [← String.toList_inj, ← take_message, ← take_message, h]

/-- **Different errors have different messages.** -/
theorem message_inj {e e' : Error} (h : e.message = e'.message) : e = e' := by
  have ho := opening_eq h
  cases e with
  | unknownInstruction word =>
    cases e' with
    | unknownInstruction word' =>
      rw [message_unknownInstruction, message_unknownInstruction, String.append_right_inj] at h
      have hn := numeral_four word.toNat
      rw [h] at hn
      rw [UInt16.toNat_inj.mp (hn.unique (numeral_four _))]
    | _ => simp [opening] at ho
  | addressOutOfRange a =>
    cases e' with
    | addressOutOfRange a' =>
      rw [message_addressOutOfRange, message_addressOutOfRange, String.append_left_inj,
        String.append_right_inj] at h
      have hn := numeral_four a
      rw [h] at hn
      rw [hn.unique (numeral_four a')]
    | _ => simp [opening] at ho
  | programTooLarge l c =>
    cases e' with
    | programTooLarge l' c' =>
      simp only [message_programTooLarge, String.append_assoc, String.append_right_inj] at h
      obtain ⟨rfl, hrest⟩ := (numeral_decimal l).split_at (numeral_decimal l') (by decide) h
      obtain ⟨rfl, -⟩ :=
        (numeral_decimal c).split (numeral_decimal c') (by decide) (by decide) hrest
      rfl
    | _ => simp [opening] at ho
  | stackFull =>
    cases e' with
    | stackFull => rfl
    | _ => simp [opening] at ho
  | stackEmpty =>
    cases e' with
    | stackEmpty => rfl
    | _ => simp [opening] at ho
  | missingHost =>
    cases e' with
    | missingHost => rfl
    | _ => simp [opening] at ho
  | missingProgram =>
    cases e' with
    | missingProgram => rfl
    | _ => simp [opening] at ho

/--
**A message tells which error it is of, and a numeral in it which number.**

Two errors have the same message only if they are of one kind and about the same numbers. What
stands behind the `0x` of an unknown word, or of an address that memory does not have, is
lowercase, has at least four digits and no zero in front of more than four, and reads as the word or
the address, of whatever size it is.
-/
theorem message_tells_error :
    (∀ e e' : Error, e.message = e'.message ↔ e = e')
      ∧ (∀ word : UInt16, ∃ s, Numeral Hex.lowercase 4 s word.toNat
          ∧ (unknownInstruction word).message = "unknown operation code 0x" ++ s)
      ∧ ∀ a : Nat, ∃ s, Numeral Hex.lowercase 4 s a
          ∧ (addressOutOfRange a).message = "address 0x" ++ s ++ " is out of address space" := by
  refine ⟨fun e e' => ⟨message_inj, fun h => h ▸ rfl⟩, fun word => ?_, fun a => ?_⟩
  · exact ⟨_, numeral_four word.toNat, message_unknownInstruction word⟩
  · exact ⟨_, numeral_four a, message_addressOutOfRange a⟩

example : (unknownInstruction 0xAB).message = "unknown operation code 0x00ab" := by decide

example : (addressOutOfRange 0x10000).message = "address 0x10000 is out of address space" := by
  decide

end Error

end ChipEight
