import ChipEight.Machine.Run

/-!
# A machine at work

A machine does nothing by itself. Whoever owns it asks for a step or for a whole
run, ticks its timers, and changes what its host is going to answer: keys go down
and up, other random bytes are laid down. A `Session` is a machine with its host,
a `Move` is one of these things other than a run, and a `Request` is a move or a
run.

A run is many steps, and what holds throughout a session has to hold between any
two of them. So the `trail` of a list of requests spells every run out: it is the
list of all the moves that were made, each with the session it was made in.

`RunCases` lists the ways a run can go on from where it is, which are the cases of an
induction on the steps it has left. `RunsThrough s xs t` says that a run in `s` begins
with the steps `xs` and goes on from `t`. A run can be followed with it over any number
of steps.

`History s xs t` says that the moments `xs` lead from `s` to `t`, one after the
other. `history_trail` says that a trail is a history and ends where the requests
do, so it is enough to look at one move at a time.
-/

namespace ChipEight

/-- The instruction that was carried out, if one was. -/
def Event.executed? : Event → Option Instruction
  | .executed _ i => some i
  | _ => none

/-- What a run halts for when one of its steps ends like this, if it does. -/
def Outcome.halt? : Outcome → Option Halt
  | .done => none
  | .blocked => some .awaitingKey
  | .failed e => some (.fault e)

/-- A machine with the host that answers it. -/
structure Session (size : Nat) (σ : Type) where
  machine : Machine size
  host : σ

/-- One thing that can happen in a session. -/
inductive Move (σ : Type) where
  | step
  | tick
  /-- From now on `h` answers, whatever was going to answer before. -/
  | alter (h : σ)

/-- What the owner of a machine can ask for. -/
inductive Request (σ : Type) where
  | move (mv : Move σ)
  | run

/-- What comes back from a request. -/
inductive Reply where
  | stepped (o : Outcome)
  | ticked (t : Tick)
  | altered
  | halted (h : Halt)

/-- A move, with the session it is made in. -/
structure Moment (size : Nat) (σ : Type) where
  before : Session size σ
  move : Move σ

variable {size : Nat} {σ α : Type} [Host σ]

namespace Session

def step (s : Session size σ) : Step size σ := s.machine.step s.host

/-- The session after a move. -/
def after (s : Session size σ) : Move σ → Session size σ
  | .step => ⟨s.step.machine, s.step.host⟩
  | .tick => { s with machine := s.machine.tick }
  | .alter h => { s with host := h }

/-- The session after a request. -/
def request (s : Session size σ) : Request σ → Session size σ
  | .move mv => s.after mv
  | .run => ⟨(s.machine.run s.host).machine, (s.machine.run s.host).host⟩

def reply (s : Session size σ) : Request σ → Reply
  | .move .step => .stepped s.step.event.outcome
  | .move .tick => .ticked s.machine.tickReport
  | .move (.alter _) => .altered
  | .run => .halted (s.machine.run s.host).halt

/-- The session after a list of requests. -/
def requests (s : Session size σ) (rs : List (Request σ)) : Session size σ := rs.foldl request s

/-- What comes back from a list of requests, in order. -/
def replies (s : Session size σ) : List (Request σ) → List Reply
  | [] => []
  | r :: rs => s.reply r :: (s.request r).replies rs

/-- The steps of a run that may take `budget` of them. The last one need not succeed. -/
def runTrail : Nat → Session size σ → List (Moment size σ)
  | 0, _ => []
  | budget + 1, s =>
    if s.machine.programEnd ≤ s.machine.pc.toNat then
      []
    else if s.step.event.outcome = .done then
      ⟨s, .step⟩ :: runTrail budget (s.after .step)
    else
      [⟨s, .step⟩]

/-- The moves that answer a request. -/
def moments (s : Session size σ) : Request σ → List (Moment size σ)
  | .move mv => [⟨s, mv⟩]
  | .run => runTrail Machine.maxRunSteps s

/-- Every move made for a list of requests, in order. -/
def trail (s : Session size σ) : List (Request σ) → List (Moment size σ)
  | [] => []
  | r :: rs => s.moments r ++ (s.request r).trail rs

end Session

theorem Session.requests_append (s : Session size σ) (rs rs' : List (Request σ)) :
    s.requests (rs ++ rs') = (s.requests rs).requests rs' := List.foldl_append

namespace Moment

/-- The session after a moment. -/
def after (x : Moment size σ) : Session size σ := x.before.after x.move

/-- The instruction carried out, if the move is a step that carries one out. -/
def executed? (x : Moment size σ) : Option Instruction :=
  match x.move with
  | .step => x.before.step.event.executed?
  | _ => none

/-- What is noted on a move. Only a step has anything to note. -/
def records (x : Moment size σ) : List Record :=
  match x.move with
  | .step => x.before.step.records
  | _ => []

/-- What a tick reports, if the move is one. -/
def report? (x : Moment size σ) : Option Tick :=
  match x.move with
  | .tick => some x.before.machine.tickReport
  | _ => none

end Moment

/-- The lines of a log that are written on the way. -/
def linesOf (xs : List (Moment size σ)) : List String :=
  (xs.flatMap Moment.records).map Record.line

theorem linesOf_append (xs ys : List (Moment size σ)) :
    linesOf (xs ++ ys) = linesOf xs ++ linesOf ys := by
  rw [linesOf, List.flatMap_append, List.map_append]
  rfl

theorem linesOf_singleton (x : Moment size σ) : linesOf [x] = x.records.map Record.line := by
  rw [linesOf, List.flatMap_singleton]

theorem linesOf_cons (x : Moment size σ) (xs : List (Moment size σ)) :
    linesOf (x :: xs) = x.records.map Record.line ++ linesOf xs := by
  rw [← linesOf_singleton, ← linesOf_append, List.singleton_append]

/-! ## Runs, one step at a time -/

section Runs

variable (gather : α → UInt16 → Account → α) (budget : Nat) (a : α) {s : Session size σ}

/-- A run does not look beyond the end of the program. -/
theorem runFor_of_end (h : s.machine.programEnd ≤ s.machine.pc.toNat) :
    s.machine.runFor gather (budget + 1) a s.host = ⟨.endOfProgram, s.machine, s.host, a⟩ := by
  rw [Machine.runFor, if_pos h]

/-- A run goes on after a step that succeeds. -/
theorem runFor_of_done (h : s.machine.pc.toNat < s.machine.programEnd)
    (hd : s.step.event.outcome = .done) :
    s.machine.runFor gather (budget + 1) a s.host =
      (s.after .step).machine.runFor gather budget
        (gather a s.machine.pc s.step.toAccount) (s.after .step).host := by
  rw [Machine.runFor, if_neg (Nat.not_le.mpr h)]
  unfold Session.step at hd
  dsimp only
  rw [hd]
  rfl

theorem runFor_of_failed {e : Error} (h : s.machine.pc.toNat < s.machine.programEnd)
    (hf : s.step.event.outcome = .failed e) :
    s.machine.runFor gather (budget + 1) a s.host =
      ⟨.fault e, s.step.machine, s.step.host, gather a s.machine.pc s.step.toAccount⟩ := by
  rw [Machine.runFor, if_neg (Nat.not_le.mpr h)]
  unfold Session.step at hf
  dsimp only
  rw [hf]
  rfl

theorem runFor_of_blocked (h : s.machine.pc.toNat < s.machine.programEnd)
    (hb : s.step.event.outcome = .blocked) :
    s.machine.runFor gather (budget + 1) a s.host =
      ⟨.awaitingKey, s.step.machine, s.step.host, gather a s.machine.pc s.step.toAccount⟩ := by
  rw [Machine.runFor, if_neg (Nat.not_le.mpr h)]
  unfold Session.step at hb
  dsimp only
  rw [hb]
  rfl

theorem runFor_of_halt {k : Halt} (h : s.machine.pc.toNat < s.machine.programEnd)
    (hk : s.step.event.outcome.halt? = some k) :
    s.machine.runFor gather (budget + 1) a s.host =
      ⟨k, s.step.machine, s.step.host, gather a s.machine.pc s.step.toAccount⟩ := by
  cases ho : s.step.event.outcome with
  | done =>
    rw [ho] at hk
    cases hk
  | blocked =>
    rw [ho] at hk
    cases hk
    exact runFor_of_blocked gather budget a h ho
  | failed e =>
    rw [ho] at hk
    cases hk
    exact runFor_of_failed gather budget a h ho

end Runs

namespace Session

theorem runTrail_of_end (budget : Nat) {s : Session size σ}
    (h : s.machine.programEnd ≤ s.machine.pc.toNat) : runTrail budget s = [] := by
  cases budget with
  | zero => rfl
  | succ budget => rw [runTrail, if_pos h]

theorem runTrail_of_done (budget : Nat) {s : Session size σ}
    (h : s.machine.pc.toNat < s.machine.programEnd) (hd : s.step.event.outcome = .done) :
    runTrail (budget + 1) s = ⟨s, .step⟩ :: runTrail budget (s.after .step) := by
  rw [runTrail, if_neg (Nat.not_le.mpr h), if_pos hd]

theorem runTrail_of_ne_done (budget : Nat) {s : Session size σ}
    (h : s.machine.pc.toNat < s.machine.programEnd) (hd : s.step.event.outcome ≠ .done) :
    runTrail (budget + 1) s = [⟨s, .step⟩] := by
  rw [runTrail, if_neg (Nat.not_le.mpr h), if_neg hd]

end Session

/-- How a run that may take another step goes on. -/
inductive RunCases (gather : α → UInt16 → Account → α) (budget : Nat) (a : α)
    (s : Session size σ) : Prop where
  | ended (h : s.machine.programEnd ≤ s.machine.pc.toNat)
      (hr : s.machine.runFor gather (budget + 1) a s.host = ⟨.endOfProgram, s.machine, s.host, a⟩)
      (ht : Session.runTrail (budget + 1) s = [])
  | went (h : s.machine.pc.toNat < s.machine.programEnd) (ho : s.step.event.outcome = .done)
      (hr : s.machine.runFor gather (budget + 1) a s.host =
        (s.after .step).machine.runFor gather budget
          (gather a s.machine.pc s.step.toAccount) (s.after .step).host)
      (ht : Session.runTrail (budget + 1) s = ⟨s, .step⟩ :: Session.runTrail budget (s.after .step))
  | stopped {k : Halt} (h : s.machine.pc.toNat < s.machine.programEnd)
      (hk : s.step.event.outcome.halt? = some k)
      (hr : s.machine.runFor gather (budget + 1) a s.host =
        ⟨k, s.step.machine, s.step.host, gather a s.machine.pc s.step.toAccount⟩)
      (ht : Session.runTrail (budget + 1) s = [⟨s, .step⟩])

/-- **There is no other way for it.** -/
theorem runCases (gather : α → UInt16 → Account → α) (budget : Nat) (a : α) (s : Session size σ) :
    RunCases gather budget a s := by
  by_cases h : s.machine.programEnd ≤ s.machine.pc.toNat
  · exact .ended h (runFor_of_end gather budget a h) (Session.runTrail_of_end _ h)
  · replace h := Nat.not_le.mp h
    cases hk : s.step.event.outcome.halt? with
    | none =>
      have ho : s.step.event.outcome = .done := by
        cases ho : s.step.event.outcome with
        | done => rfl
        | blocked | failed e =>
          rw [ho] at hk
          cases hk
      exact .went h ho (runFor_of_done gather budget a h ho) (Session.runTrail_of_done _ h ho)
    | some k =>
      have hd : s.step.event.outcome ≠ .done := by
        intro ho
        rw [ho] at hk
        cases hk
      exact .stopped h hk (runFor_of_halt gather budget a h hk)
        (Session.runTrail_of_ne_done _ h hd)

/-! ## Runs, many steps at a time -/

namespace Session

/-- A run that starts in `s` takes the steps `xs` first, all of which succeed, and then is in `t`. -/
def RunsThrough (s : Session size σ) (xs : List (Moment size σ)) (t : Session size σ) : Prop :=
  ∀ budget,
    s.machine.runFor (fun _ _ _ => ()) (budget + xs.length) () s.host
        = t.machine.runFor (fun _ _ _ => ()) budget () t.host
      ∧ runTrail (budget + xs.length) s = xs ++ runTrail budget t

namespace RunsThrough

variable {s t u : Session size σ} {xs ys : List (Moment size σ)}

theorem nil (s : Session size σ) : RunsThrough s [] s := fun _ => ⟨rfl, rfl⟩

theorem step (h : s.machine.pc.toNat < s.machine.programEnd)
    (hd : s.step.event.outcome = .done) : RunsThrough s [⟨s, .step⟩] (s.after .step) :=
  fun budget => ⟨runFor_of_done _ budget () h hd, runTrail_of_done budget h hd⟩

theorem append (h : RunsThrough s xs t) (h' : RunsThrough t ys u) :
    RunsThrough s (xs ++ ys) u := by
  intro budget
  obtain ⟨h1, h2⟩ := h (budget + ys.length)
  obtain ⟨h3, h4⟩ := h' budget
  rw [List.length_append, Nat.add_comm xs.length, ← Nat.add_assoc]
  exact ⟨h1.trans h3, by rw [h2, h4, List.append_assoc]⟩

/-- What is left of a run after the steps that it takes first. -/
theorem rest (h : RunsThrough s xs t) (hn : xs.length < Machine.maxRunSteps) :
    ∃ budget,
      s.machine.run s.host = t.machine.runFor (fun _ _ _ => ()) (budget + 1) () t.host
        ∧ s.trail [.run] = xs ++ runTrail (budget + 1) t := by
  obtain ⟨budget, hb⟩ : ∃ budget, Machine.maxRunSteps = budget + 1 + xs.length :=
    ⟨Machine.maxRunSteps - xs.length - 1, by omega⟩
  obtain ⟨h1, h2⟩ := h (budget + 1)
  rw [← hb] at h1 h2
  exact ⟨budget, h1, (List.append_nil _).trans h2⟩

end RunsThrough

end Session

/-! ## Histories -/

/-- One of a list with one more at its end is that one, or one of the list. -/
theorem eq_or_eq_of_snoc {β : Type} {xs ys zs : List β} {x y : β} (h : xs ++ [x] = ys ++ y :: zs) :
    (xs = ys ∧ x = y ∧ zs = []) ∨ ∃ ws, zs = ws ++ [x] ∧ xs = ys ++ y :: ws := by
  rcases List.eq_nil_or_concat zs with rfl | ⟨ws, z, rfl⟩
  · obtain ⟨h1, h2⟩ := List.append_inj' h rfl
    exact .inl ⟨h1, List.singleton_inj.mp h2, rfl⟩
  · rw [List.concat_eq_append, ← List.cons_append, ← List.append_assoc] at h
    obtain ⟨h1, h2⟩ := List.append_inj' h rfl
    rw [List.concat_eq_append, List.singleton_inj.mp h2]
    exact .inr ⟨ws, rfl, h1⟩

/-- The moments lead from the first session to the second, one after the other. -/
inductive History : Session size σ → List (Moment size σ) → Session size σ → Prop where
  | nil (s : Session size σ) : History s [] s
  | cons {s t : Session size σ} {xs : List (Moment size σ)} (mv : Move σ) :
      History (s.after mv) xs t → History s (⟨s, mv⟩ :: xs) t

namespace History

variable {s t u : Session size σ} {xs ys : List (Moment size σ)}

theorem append (h : History s xs t) (h' : History t ys u) : History s (xs ++ ys) u := by
  induction h with
  | nil => exact h'
  | cons mv _ ih => exact .cons mv (ih h')

/-- A history can be stopped before any of its moments. -/
theorem before_of_append {x : Moment size σ} (h : History s (xs ++ x :: ys) u) :
    History s xs x.before := by
  induction xs generalizing s with
  | nil =>
    cases h
    exact .nil s
  | cons y xs ih =>
    cases h with
    | cons mv h => exact .cons mv (ih h)

/-- A history can be cut in two between any of its moments. -/
theorem of_append (h : History s (xs ++ ys) u) : ∃ t, History s xs t ∧ History t ys u := by
  induction xs generalizing s with
  | nil => exact ⟨s, .nil s, h⟩
  | cons x xs ih =>
    cases h with
    | cons mv h =>
      obtain ⟨t, h1, h2⟩ := ih h
      exact ⟨t, .cons mv h1, h2⟩

/-- What every move preserves is preserved by a history. -/
theorem preserves {P : Session size σ → Prop} (hP : ∀ t mv, P t → P (t.after mv))
    (h : History s xs t) (hs : P s) : P t := by
  induction h with
  | nil => exact hs
  | cons mv _ ih => exact ih (hP _ mv hs)

/-- The same for what depends on the moments so far. -/
theorem induct {P : List (Moment size σ) → Session size σ → Prop}
    (move : ∀ xs t mv, P xs t → P (xs ++ [⟨t, mv⟩]) (t.after mv))
    (h : History s xs t) (hs : P [] s) : P xs t := by
  -- the moments so far are an accumulator, which the history adds to at its end
  suffices ∀ {s xs t}, History s xs t → ∀ pre, P pre s → P (pre ++ xs) t from
    this h [] hs
  intro s xs t h
  induction h with
  | nil => intro pre hp; rw [List.append_nil]; exact hp
  | cons mv _ ih =>
    intro pre hp
    rw [List.append_cons]
    exact ih _ (move pre _ mv hp)

end History

/-- The steps of a run lead to where the run ends. -/
theorem history_runTrail (gather : α → UInt16 → Account → α) (budget : Nat) (a : α)
    (s : Session size σ) :
    History s (Session.runTrail budget s)
      ⟨(s.machine.runFor gather budget a s.host).machine,
        (s.machine.runFor gather budget a s.host).host⟩ := by
  induction budget generalizing a s with
  | zero => exact .nil s
  | succ budget ih =>
    cases runCases gather budget a s with
    | ended _ hr ht =>
      rw [hr, ht]
      exact .nil s
    | went _ _ hr ht =>
      rw [hr, ht]
      exact .cons .step (ih _ _)
    | stopped _ _ hr ht =>
      rw [hr, ht]
      exact .cons .step (.nil _)

theorem history_moments (s : Session size σ) (r : Request σ) :
    History s (s.moments r) (s.request r) := by
  cases r with
  | move mv => exact .cons mv (.nil _)
  | run => exact history_runTrail _ _ () s

/-- **A trail is a history, and ends where the requests do.** -/
theorem history_trail (s : Session size σ) (rs : List (Request σ)) :
    History s (s.trail rs) (s.requests rs) := by
  induction rs generalizing s with
  | nil => exact .nil s
  | cons r rs ih => exact (history_moments s r).append (ih (s.request r))

/-- What comes before a moment of a trail leads to where it is made. -/
theorem history_of_trail {s : Session size σ} {rs : List (Request σ)}
    {xs ys : List (Moment size σ)} {x : Moment size σ} (ht : s.trail rs = xs ++ x :: ys) :
    History s xs x.before := by
  have h := history_trail s rs
  rw [ht] at h
  exact h.before_of_append

end ChipEight
