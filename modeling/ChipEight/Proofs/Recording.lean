import ChipEight.Proofs.Questions

/-!
# A record of the answers

`Recorded` is a host that keeps a record of the answers it gives, and otherwise is the
host within it. `Session.recording` makes a list of requests with such a host. What it has
recorded in the end are the `answers`, the keypads and the random bytes, each in the order
they were asked for. So these are the calls that were made.

`Session.recording_eq` compares them with the trail. The record is what the single moves
got told, and whatever a machine does, it does the same without a record. It follows how
many answers of each kind there are.
-/

namespace ChipEight

variable {size : Nat} {σ α : Type} [Host σ]

/-- Answers that were given, each kind in order. -/
structure Answers where
  keypads : List Keypad
  bytes : List UInt8

namespace Answers

/-- Nothing was asked for. -/
def none : Answers := ⟨[], []⟩

instance : Append Answers where
  append a b := ⟨a.keypads ++ b.keypads, a.bytes ++ b.bytes⟩

theorem append_none (a : Answers) : a ++ none = a := by
  show Answers.mk (a.keypads ++ []) (a.bytes ++ []) = a
  rw [List.append_nil, List.append_nil]

theorem append_assoc (a b c : Answers) : a ++ b ++ c = a ++ (b ++ c) := by
  show Answers.mk (a.keypads ++ b.keypads ++ c.keypads) (a.bytes ++ b.bytes ++ c.bytes)
    = ⟨a.keypads ++ (b.keypads ++ c.keypads), a.bytes ++ (b.bytes ++ c.bytes)⟩
  rw [List.append_assoc, List.append_assoc]

end Answers

/-- A host that records its answers. -/
structure Recorded (σ : Type) where
  inner : σ
  given : Answers

instance : Host (Recorded σ) where
  keys h :=
    let (keypad, inner) := Host.keys h.inner
    (keypad, ⟨inner, h.given ++ ⟨[keypad], []⟩⟩)
  random h :=
    let (byte, inner) := Host.random h.inner
    (byte, ⟨inner, h.given ++ ⟨[], [byte]⟩⟩)

/-- What the moments got told. -/
def answersOf (xs : List (Moment size σ)) : Answers :=
  ⟨xs.filterMap Moment.keypad?, xs.filterMap Moment.byte?⟩

theorem answersOf_nil : answersOf ([] : List (Moment size σ)) = .none := rfl

theorem answersOf_append (xs ys : List (Moment size σ)) :
    answersOf (xs ++ ys) = answersOf xs ++ answersOf ys := by
  rw [answersOf, List.filterMap_append, List.filterMap_append]
  rfl

theorem answersOf_cons (x : Moment size σ) (xs : List (Moment size σ)) :
    answersOf (x :: xs) = answersOf [x] ++ answersOf xs :=
  answersOf_append [x] xs

/-- The answers to one question. -/
def Question.answer (h : σ) : Option Question → Answers
  | none => .none
  | some .keys => ⟨[(Host.keys h).1], []⟩
  | some .byte => ⟨[], [(Host.random h).1]⟩

theorem answersOf_singleton (x : Moment size σ) :
    answersOf [x] = Question.answer x.before.host x.question? := by
  rw [answersOf, List.filterMap_cons, List.filterMap_cons, List.filterMap_nil, List.filterMap_nil,
    Moment.keypad?, Moment.byte?]
  cases x.question? with
  | none => rfl
  | some q => cases q <;> rfl

/-- What an instruction that is carried out got told. -/
theorem answersOf_of_executed {x : Moment size σ} {i : Instruction} (hx : x.executed? = some i) :
    answersOf [x] = Question.answer x.before.host i.question? := by
  rw [answersOf_singleton, Moment.question?_of_executed hx]

namespace Session

/-- The session with a host that has recorded `g` so far. -/
def recorded (s : Session size σ) (g : Answers) : Session size (Recorded σ) :=
  ⟨s.machine, ⟨s.host, g⟩⟩

/-- A request to a session with a record. A change of host is one of the host within. -/
def record (s : Session size (Recorded σ)) : Request σ → Session size (Recorded σ)
  | .move .step => s.request (.move .step)
  | .move .tick => s.request (.move .tick)
  | .move (.alter h) => s.request (.move (.alter ⟨h, s.host.given⟩))
  | .run => s.request .run

/-- Requests with a record, which is empty at first. -/
def recording (s : Session size σ) (rs : List (Request σ)) : Session size (Recorded σ) :=
  rs.foldl record (s.recorded .none)

/-- All the answers that the host gives. -/
def answers (s : Session size σ) (rs : List (Request σ)) : Answers := (s.recording rs).host.given

/-- A step with a record is the step without, and the answer goes into the record. -/
theorem recorded_step (s : Session size σ) (g : Answers) :
    (s.recorded g).step.event = s.step.event
      ∧ (s.recorded g).after .step
        = (s.after .step).recorded (g ++ answersOf [⟨s, .step⟩]) := by
  have hsame : ∀ q, Question.SameAnswer s.host (Recorded.mk s.host g) q := by
    intro q
    cases q with
    | none => trivial
    | some q => cases q <;> rfl
  have hput : ∀ q, Question.put (Recorded.mk s.host g) q
      = ⟨Question.put s.host q, g ++ Question.answer s.host q⟩ := by
    intro q
    cases q with
    | none => rw [Question.answer, Answers.append_none]; rfl
    | some q => cases q <;> rfl
  obtain ⟨he, hm⟩ := Machine.step_congr (hsame s.machine.question?)
  refine ⟨he, ?_⟩
  show Session.mk (s.machine.step (Recorded.mk s.host g)).machine
      (s.machine.step (Recorded.mk s.host g)).host
    = ⟨(s.machine.step s.host).machine, ⟨(s.machine.step s.host).host, _⟩⟩
  rw [hm, Machine.step_asks, Machine.step_asks, hput, answersOf_singleton]
  rfl

/-- A run with a record is the run without, and its answers go into the record. -/
theorem recorded_runFor (gather : α → UInt16 → Account → α) (budget : Nat) (a : α)
    (s : Session size σ) (g : Answers) :
    (s.recorded g).machine.runFor gather budget a (s.recorded g).host
      = ⟨(s.machine.runFor gather budget a s.host).halt,
          (s.machine.runFor gather budget a s.host).machine,
          ⟨(s.machine.runFor gather budget a s.host).host, g ++ answersOf (runTrail budget s)⟩,
          (s.machine.runFor gather budget a s.host).gathered⟩ := by
  induction budget generalizing a s g with
  | zero =>
    rw [runTrail, answersOf_nil, Answers.append_none]
    rfl
  | succ budget ih =>
    obtain ⟨he, hafter⟩ := s.recorded_step g
    have hacc : (s.recorded g).step.toAccount = s.step.toAccount := Machine.account_congr rfl he
    cases runCases gather budget a s with
    | ended h hr ht =>
      rw [hr, ht, answersOf_nil, Answers.append_none]
      exact runFor_of_end gather budget a h
    | went h ho hr ht =>
      have h' : (s.recorded g).machine.pc.toNat < (s.recorded g).machine.programEnd := h
      have ho' : (s.recorded g).step.event.outcome = .done := by rw [he]; exact ho
      rw [runFor_of_done gather budget a h' ho', hr, ht, hafter, hacc,
        answersOf_cons _ (runTrail budget (s.after .step)), ← Answers.append_assoc]
      exact ih _ _ _
    | @stopped k h hk hr ht =>
      have h' : (s.recorded g).machine.pc.toNat < (s.recorded g).machine.programEnd := h
      have hk' : (s.recorded g).step.event.outcome.halt? = some k := by rw [he]; exact hk
      obtain ⟨hm, hh⟩ := Session.mk.inj hafter
      rw [runFor_of_halt gather budget a h' hk', hr, ht, hm, hh, hacc]
      rfl

/-- And so with any request. -/
theorem record_recorded (s : Session size σ) (g : Answers) (r : Request σ) :
    (s.recorded g).record r = (s.request r).recorded (g ++ answersOf (s.moments r)) := by
  cases r with
  | move mv =>
    cases mv with
    | step => exact (s.recorded_step g).2
    | tick =>
      show (s.after .tick).recorded g = (s.after .tick).recorded (g ++ .none)
      rw [Answers.append_none]
    | alter h =>
      show (s.after (.alter h)).recorded g = (s.after (.alter h)).recorded (g ++ .none)
      rw [Answers.append_none]
  | run =>
    show Session.mk (Machine.run _ _).machine (Machine.run _ _).host = _
    rw [Machine.run, recorded_runFor]
    rfl

/-- **Recording changes nothing, and the record is what the moves got told.** -/
theorem recording_eq (s : Session size σ) (rs : List (Request σ)) :
    s.recording rs = (s.requests rs).recorded (answersOf (s.trail rs)) := by
  suffices ∀ g, rs.foldl record (s.recorded g)
      = (s.requests rs).recorded (g ++ answersOf (s.trail rs)) from this .none
  induction rs generalizing s with
  | nil =>
    intro g
    rw [trail, answersOf_nil, Answers.append_none]
    rfl
  | cons r rs ih =>
    intro g
    rw [List.foldl_cons, record_recorded, ih, trail, answersOf_append, Answers.append_assoc]
    rfl

theorem answers_eq (s : Session size σ) (rs : List (Request σ)) :
    s.answers rs = answersOf (s.trail rs) := by
  rw [answers, recording_eq]
  rfl

end Session

/-! ## How many answers there are -/

theorem length_keypads (xs : List (Moment size σ)) :
    (answersOf xs).keypads.length = xs.countP Moment.looks + xs.countP Moment.waits := by
  show (xs.filterMap Moment.keypad?).length = _
  rw [List.length_filterMap_eq_countP]
  induction xs with
  | nil => rfl
  | cons x xs ih =>
    rw [List.countP_cons, List.countP_cons, List.countP_cons, ih, x.isSome_keypad?]
    cases hw : x.waits with
    | true =>
      rw [Moment.looks_of_waits hw]
      rfl
    | false =>
      rw [Bool.or_false]
      exact Nat.add_right_comm _ _ _

theorem length_bytes (xs : List (Moment size σ)) :
    (answersOf xs).bytes.length = xs.countP Moment.rolls := by
  show (xs.filterMap Moment.byte?).length = _
  rw [List.length_filterMap_eq_countP]
  exact List.countP_congr fun x _ => by rw [x.isSome_byte?]

end ChipEight
