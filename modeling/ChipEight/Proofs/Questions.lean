import ChipEight.Proofs.Effects

/-!
# What a step asks for

A step puts at most one question to its host, and which one is settled before it is put.
While a key is awaited it asks for the keys. Otherwise only three instructions ask for
anything, and only when they are carried out. So `Machine.question?` can be read off the
machine, without any host.

`step_asks` says that the host is asked this and nothing else. `step_congr` says what an
answer is good for: in the same machine, two hosts that answer the one question alike
lead to the same event and the same machine. What they would have answered to the other
one does not matter.
-/

namespace ChipEight

variable {size : Nat} {σ τ : Type} [Host σ] [Host τ]

/-- The things a host can be asked for. -/
inductive Question where
  | keys
  | byte
  deriving DecidableEq

namespace Question

/-- The host after a question, if there was one. -/
def put (h : σ) : Option Question → σ
  | none => h
  | some .keys => (Host.keys h).2
  | some .byte => (Host.random h).2

/-- Two hosts answer alike. -/
def SameAnswer (h : σ) (g : τ) : Option Question → Prop
  | none => True
  | some .keys => (Host.keys h).1 = (Host.keys g).1
  | some .byte => (Host.random h).1 = (Host.random g).1

end Question

/-- What an instruction asks for. -/
def Instruction.question? : Instruction → Option Question
  | .random _ _ => some .byte
  | .skipIfKey _ | .skipUnlessKey _ => some .keys
  | _ => none

namespace Machine

/-- What the next step asks for. -/
def question? (m : Machine size) : Option Question :=
  match m.awaiting with
  | some _ => some .keys
  | none =>
    match m.next with
    | .error _ => none
    | .ok (_, i) => if (m.obstacle? i).isSome then none else i.question?

section Cases

variable {m : Machine size} {word : UInt16} {i : Instruction} {e : Error}

theorem question?_of_awaiting {x : Register} (hx : m.awaiting = some x) :
    m.question? = some .keys := by
  rw [question?, hx]

theorem question?_of_error (hx : m.awaiting = none) (hn : m.next = .error e) :
    m.question? = none := by
  rw [question?, hx, hn]

theorem question?_of_obstacle (hx : m.awaiting = none) (hn : m.next = .ok (word, i))
    (ho : m.obstacle? i = some e) : m.question? = none := by
  rw [question?, hx, hn]
  dsimp only
  rw [ho]
  rfl

theorem question?_of_next (hx : m.awaiting = none) (hn : m.next = .ok (word, i))
    (ho : m.obstacle? i = none) : m.question? = i.question? := by
  rw [question?, hx, hn]
  dsimp only
  rw [ho]
  rfl

end Cases

theorem perform_asks (m : Machine size) (h : σ) (i : Instruction) :
    (m.perform h i).2 = Question.put h i.question? := by
  cases i <;> rfl

/-- An instruction learns nothing from its host but the answer. -/
theorem perform_congr (m : Machine size) {h : σ} {g : τ} {i : Instruction}
    (ha : Question.SameAnswer h g i.question?) : (m.perform h i).1 = (m.perform g i).1 := by
  cases i with
  | random x n =>
    have hb : (Host.random h).1 = (Host.random g).1 := ha
    simp only [perform, hb]
  | skipIfKey x | skipUnlessKey x =>
    have hk : (Host.keys h).1 = (Host.keys g).1 := ha
    simp only [perform, hk]
  | _ => rfl

/-- **A step asks for this, once, and for nothing else.** -/
theorem step_asks (m : Machine size) (h : σ) :
    (m.step h).host = Question.put h m.question? := by
  cases m.stepCases h with
  | blocked hx _ hs | keyStored hx _ hs => rw [hs, question?_of_awaiting hx]; rfl
  | unreadable hx hn hs => rw [hs, question?_of_error hx hn]; rfl
  | refused hx hn ho hs => rw [hs, question?_of_obstacle hx hn ho]; rfl
  | executed hx hn ho hs => rw [hs, question?_of_next hx hn ho, perform_asks]

/-- **And it learns nothing but the answer.** -/
theorem step_congr {m : Machine size} {h : σ} {g : τ}
    (ha : Question.SameAnswer h g m.question?) :
    (m.step g).event = (m.step h).event ∧ (m.step g).machine = (m.step h).machine := by
  cases m.stepCases h with
  | blocked hx hk hs =>
    rw [question?_of_awaiting hx] at ha
    have hk' : (Host.keys g).1.lowest? = none := (congrArg _ (Eq.symm ha)).trans hk
    rw [hs, step_of_noKey hx hk']
    exact ⟨rfl, rfl⟩
  | @keyStored x key hx hk hs =>
    rw [question?_of_awaiting hx] at ha
    have hk' : (Host.keys g).1.lowest? = some key := (congrArg _ (Eq.symm ha)).trans hk
    rw [hs, step_of_key hx hk']
    exact ⟨rfl, rfl⟩
  | @unreadable e hx hn hs =>
    rw [hs, step_of_next_error hx hn]
    exact ⟨rfl, rfl⟩
  | @refused word i e hx hn ho hs =>
    rw [hs, step_of_obstacle hx hn ho]
    exact ⟨rfl, rfl⟩
  | @executed word i hx hn ho hs =>
    rw [question?_of_next hx hn ho] at ha
    rw [hs, step_of_no_obstacle hx hn ho]
    exact ⟨rfl, (m.perform_congr ha).symm⟩

end Machine

/-! ## Moments -/

namespace Moment

/-- What a move asks for. -/
def question? (x : Moment size σ) : Option Question :=
  match x.move with
  | .step => x.before.machine.question?
  | _ => none

/-- The keys that a move gets told. -/
def keypad? (x : Moment size σ) : Option Keypad :=
  if x.question? = some .keys then some (Host.keys x.before.host).1 else none

/-- The random byte that a move gets told. -/
def byte? (x : Moment size σ) : Option UInt8 :=
  if x.question? = some .byte then some (Host.random x.before.host).1 else none

/-- The move is a step, and a key is awaited when it begins. -/
def waits (x : Moment size σ) : Bool :=
  match x.move with
  | .step => x.before.machine.awaiting.isSome
  | _ => false

/-- The move carries out an instruction that depends on whether a key is down. -/
def looks (x : Moment size σ) : Bool :=
  match x.executed? with
  | some (.skipIfKey _) | some (.skipUnlessKey _) => true
  | _ => false

/-- The move carries out an instruction that makes a random byte. -/
def rolls (x : Moment size σ) : Bool :=
  match x.executed? with
  | some (.random _ _) => true
  | _ => false

/-- There is no other reason to ask. -/
theorem question?_eq (x : Moment size σ) :
    x.question? = if x.waits then some .keys else x.executed?.bind Instruction.question? := by
  obtain ⟨s, mv⟩ := x
  cases mv with
  | tick | alter h => rfl
  | step =>
    have executed_eq :
        Moment.executed? ⟨s, .step⟩ = (s.machine.step s.host).event.executed? := rfl
    have waits_eq : Moment.waits ⟨s, .step⟩ = s.machine.awaiting.isSome := rfl
    rw [executed_eq, waits_eq, question?]
    cases s.machine.stepCases s.host with
    | blocked hx _ _ | keyStored hx _ _ => rw [Machine.question?_of_awaiting hx, hx]; rfl
    | unreadable hx hn hs => rw [Machine.question?_of_error hx hn, hx, hs]; rfl
    | refused hx hn ho hs => rw [Machine.question?_of_obstacle hx hn ho, hx, hs]; rfl
    | executed hx hn ho hs => rw [Machine.question?_of_next hx hn ho, hx, hs]; rfl

/-- While a key is awaited no instruction is carried out. -/
theorem executed?_of_waits {x : Moment size σ} (h : x.waits = true) : x.executed? = none := by
  obtain ⟨s, mv⟩ := x
  cases mv with
  | tick | alter h => rfl
  | step =>
    change (s.machine.step s.host).event.executed? = none
    replace h : s.machine.awaiting.isSome = true := h
    cases s.machine.stepCases s.host with
    | blocked _ _ hs | keyStored _ _ hs | unreadable _ _ hs | refused _ _ _ hs => rw [hs]; rfl
    | executed hx _ _ _ =>
      rw [hx] at h
      cases h

theorem question?_of_executed {x : Moment size σ} {i : Instruction} (hx : x.executed? = some i) :
    x.question? = i.question? := by
  have hw : x.waits = false := by
    cases hw : x.waits with
    | false => rfl
    | true =>
      rw [executed?_of_waits hw] at hx
      cases hx
  rw [question?_eq, hw, hx]
  rfl

theorem isSome_keypad? (x : Moment size σ) : x.keypad?.isSome = (x.looks || x.waits) := by
  have hq := x.question?_eq
  rw [keypad?, looks]
  cases hw : x.waits with
  | true =>
    rw [hw] at hq
    rw [hq, if_pos rfl, Bool.or_true]
    rfl
  | false =>
    rw [hw] at hq
    rw [hq]
    cases x.executed? with
    | none => rfl
    | some i => cases i <;> rfl

theorem isSome_byte? (x : Moment size σ) : x.byte?.isSome = x.rolls := by
  have hq := x.question?_eq
  rw [byte?, rolls]
  cases hw : x.waits with
  | true =>
    rw [hw] at hq
    rw [hq, executed?_of_waits hw]
    rfl
  | false =>
    rw [hw] at hq
    rw [hq]
    cases x.executed? with
    | none => rfl
    | some i => cases i <;> rfl

/-- The two reasons to ask for the keys exclude one another. -/
theorem looks_of_waits {x : Moment size σ} (h : x.waits = true) : x.looks = false := by
  rw [looks, executed?_of_waits h]

/-- What becomes of a random byte. -/
theorem v_of_random {x : Moment size σ} {r : Register} {n : UInt8}
    (hx : x.executed? = some (.random r n)) :
    ∃ b, x.byte? = some b ∧ x.after.machine.v r = b &&& n := by
  refine ⟨(Host.random x.before.host).1, ?_, ?_⟩
  · exact if_pos (question?_of_executed hx)
  · rw [machine_of_executed hx]
    exact Vector.getElem_set_self _

end Moment

end ChipEight
