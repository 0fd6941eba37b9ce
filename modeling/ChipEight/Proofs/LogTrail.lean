import ChipEight.Proofs.Lines
import ChipEight.Proofs.RunSteps

/-!
# The log follows the trail

A log gets longer by what each step has to say, and it says that when the step is made or
when a run makes it. `Logged` is a session that keeps a log. `Logged.requests_eq` says
that keeping it changes nothing, and that in the end the log has the records of all the
steps in the trail, one step after the other.

`StepRecords` lists what one step may record, by what there is to find before it: a key
that is awaited, a word that cannot be read, an instruction. Then it is a small matter to
see what a reader gets who looks at one level only. The traces are the instructions that
were dispatched, whatever came of them, and the warnings are the steps that failed.

In the log itself there are only lines, and the records have to be found out from them. The lines
that a session adds to a log are those of its trail (`linesOf`), and they can be read as the records
of the trail and as no others.
-/

namespace ChipEight

variable {size : Nat} {σ : Type} [Host σ]

/-! ## The records of a step -/

/-- What a step in the machine `m` adds to the log. -/
inductive StepRecords (m : Machine size) (h : σ) : List Record → Prop where
  /-- A wait in vain is not worth a record. -/
  | blocked {x : Register} (hx : m.awaiting = some x)
      (hk : ∀ k, (Host.keys h).1.isDown k = false) : StepRecords m h []
  /-- The lowest key that is down ends the wait. -/
  | keyStored {x : Register} {k : Key} (hx : m.awaiting = some x)
      (hk : (Host.keys h).1.isDown k = true) (hl : ∀ j < k, (Host.keys h).1.isDown j = false) :
      StepRecords m h [.keyStored k x]
  /-- There is no word to read. -/
  | noWord {e : Error} (hx : m.awaiting = none) (hf : m.fetch = .error e) :
      StepRecords m h [.failed m.pc e]
  /-- The word is no instruction. -/
  | noInstruction {w : UInt16} {e : Error} (hx : m.awaiting = none) (hf : m.fetch = .ok w)
      (hd : Instruction.decode w = .error e) : StepRecords m h [.failed m.pc e]
  /-- An instruction that begins a wait. -/
  | waiting {w : UInt16} {x : Register} (hx : m.awaiting = none) (hf : m.fetch = .ok w)
      (hd : Instruction.decode w = .ok (.awaitKey x)) :
      StepRecords m h [.dispatched m.pc w (.awaitKey x), .waiting m.pc x]
  /-- An instruction that fails. -/
  | failed {w : UInt16} {i : Instruction} {e : Error} (hx : m.awaiting = none)
      (hf : m.fetch = .ok w) (hd : Instruction.decode w = .ok i)
      (ho : (m.step h).event.outcome = .failed e) :
      StepRecords m h [.dispatched m.pc w i, .failed m.pc e]
  /-- Any other instruction. -/
  | done {w : UInt16} {i : Instruction} (hx : m.awaiting = none) (hf : m.fetch = .ok w)
      (hd : Instruction.decode w = .ok i) (hi : ∀ x, i ≠ .awaitKey x)
      (ho : ∀ e, (m.step h).event.outcome ≠ .failed e) :
      StepRecords m h [.dispatched m.pc w i]

/-- Only the beginning of a wait is worth a second record when all goes well. -/
theorem Event.records_executed {pc w : UInt16} {i : Instruction} (hi : ∀ x, i ≠ .awaitKey x) :
    (Event.executed w i).records pc = [.dispatched pc w i] := by
  cases i with
  | awaitKey x => exact absurd rfl (hi x)
  | _ => rfl

namespace Machine

variable {m : Machine size} {h : σ} {w : UInt16} {i : Instruction} {e : Error}

theorem next_of_fetch_error (hf : m.fetch = .error e) : m.next = .error e := by
  rw [next, hf]

theorem next_of_decode (hf : m.fetch = .ok w) (hd : Instruction.decode w = .ok i) :
    m.next = .ok (w, i) :=
  next_eq_ok_iff.mpr ⟨hf, Instruction.decode_eq_ok_iff.mp hd⟩

theorem next_of_decode_error (hf : m.fetch = .ok w) (hd : Instruction.decode w = .error e) :
    m.next = .error e := by
  rw [next, hf]
  dsimp only
  rw [hd]

/-- What cannot be read is no word or no instruction. -/
theorem fetch_or_decode_of_next_error (hn : m.next = .error e) :
    m.fetch = .error e ∨ ∃ w, m.fetch = .ok w ∧ Instruction.decode w = .error e := by
  cases hf : m.fetch with
  | error e' =>
    rw [next_of_fetch_error hf] at hn
    exact .inl (congrArg _ (Except.error.inj hn))
  | ok w =>
    cases hd : Instruction.decode w with
    | error e' =>
      rw [next_of_decode_error hf hd] at hn
      exact .inr ⟨w, rfl, hd.trans (congrArg _ (Except.error.inj hn))⟩
    | ok i =>
      rw [next_of_decode hf hd] at hn
      cases hn

/-- An instruction that is found is dispatched, and then carried out or not. -/
theorem event_of_next (hx : m.awaiting = none) (hn : m.next = .ok (w, i)) (h : σ) :
    (m.step h).event =
      match m.obstacle? i with
      | some e => .refused w i e
      | none => .executed w i := by
  cases ho : m.obstacle? i with
  | some e =>
    rw [step_of_obstacle hx hn ho]
    rfl
  | none =>
    rw [step_of_no_obstacle hx hn ho]
    rfl

/-- A step records one of these. -/
theorem stepRecords (m : Machine size) (h : σ) : StepRecords m h (m.step h).records := by
  cases m.stepCases h with
  | blocked hx hk hs =>
    rw [hs]
    exact .blocked hx ((Keypad.lowest?_eq_none_iff _).mp hk)
  | keyStored hx hk hs =>
    obtain ⟨hdown, hlow⟩ := (Keypad.lowest?_eq_some_iff _ _).mp hk
    rw [hs]
    exact .keyStored hx hdown hlow
  | unreadable hx hn hs =>
    rw [hs]
    rcases fetch_or_decode_of_next_error hn with hf | ⟨w, hf, hd⟩
    · exact .noWord hx hf
    · exact .noInstruction hx hf hd
  | refused hx hn _ hs =>
    obtain ⟨hf, hw⟩ := next_eq_ok_iff.mp hn
    have ho := congrArg (fun t => t.event.outcome) hs
    rw [hs]
    exact .failed hx hf (Instruction.decode_eq_ok_iff.mpr hw) ho
  | @executed w i hx hn _ hs =>
    obtain ⟨hf, hw⟩ := next_eq_ok_iff.mp hn
    have hd := Instruction.decode_eq_ok_iff.mpr hw
    have ho : (m.step h).event.outcome = .done := by rw [hs]; rfl
    rw [hs]
    change StepRecords m h ((Event.executed w i).records m.pc)
    by_cases hi : ∃ x, i = .awaitKey x
    · obtain ⟨x, rfl⟩ := hi
      exact .waiting hx hf hd
    · have hi' : ∀ x, i ≠ .awaitKey x := not_exists.mp hi
      rw [Event.records_executed hi']
      exact .done hx hf hd hi' (by rw [ho]; intro e he; cases he)

end Machine

/-- There is nothing else that it could record. -/
theorem StepRecords.eq {m : Machine size} {h : σ} {rs : List Record} (hr : StepRecords m h rs) :
    rs = (m.step h).records := by
  rw [m.records_step]
  cases hr with
  | blocked hx hk =>
    rw [Machine.step_of_released hx hk]
    rfl
  | keyStored hx hk hl =>
    rw [Machine.step_of_pressed hx hk hl]
    rfl
  | noWord hx hf =>
    rw [Machine.step_of_next_error hx (Machine.next_of_fetch_error hf)]
    rfl
  | noInstruction hx hf hd =>
    rw [Machine.step_of_next_error hx (Machine.next_of_decode_error hf hd)]
    rfl
  | waiting hx hf hd =>
    rw [Machine.step_of_next_awaitKey hx (Machine.next_of_decode hf hd)]
    rfl
  | @failed w i e hx hf hd ho =>
    rw [Machine.event_of_next hx (Machine.next_of_decode hf hd)] at ho ⊢
    cases hob : m.obstacle? i with
    | none =>
      rw [hob] at ho
      cases ho
    | some e' =>
      rw [hob] at ho
      cases ho
      rfl
  | @done w i hx hf hd hi ho =>
    rw [Machine.event_of_next hx (Machine.next_of_decode hf hd)] at ho ⊢
    cases hob : m.obstacle? i with
    | none => exact (Event.records_executed hi).symm
    | some e =>
      rw [hob] at ho
      exact absurd rfl (ho e)

/-- **What a step records, and nothing else.** -/
theorem stepRecords_iff {m : Machine size} {h : σ} {rs : List Record} :
    StepRecords m h rs ↔ rs = (m.step h).records :=
  ⟨StepRecords.eq, fun he => he ▸ m.stepRecords h⟩

namespace Moment

/-- Only a step has anything to note. -/
theorem records_eq_nil {x : Moment size σ} (hx : x.move ≠ .step) : x.records = [] := by
  rw [records]
  cases hmv : x.move with
  | step => exact absurd hmv hx
  | tick | alter h => rfl

end Moment

/-! ## One level only -/

/-- The record of the instruction that the next step dispatches, if it dispatches one. -/
def Machine.dispatched? (m : Machine size) : Option Record :=
  match m.awaiting, m.next with
  | none, .ok (w, i) => some (.dispatched m.pc w i)
  | _, _ => none

namespace Moment

/-- The record of the instruction that is dispatched, if the move is a step that dispatches one. -/
def dispatched? (x : Moment size σ) : Option Record :=
  match x.move with
  | .step => x.before.machine.dispatched?
  | _ => none

/-- The record of the failure, if the move is a step that fails. -/
def failed? (x : Moment size σ) : Option Record :=
  match x.move, x.before.step.event.outcome with
  | .step, .failed e => some (.failed x.before.machine.pc e)
  | _, _ => none

end Moment

/-- The one trace of a step is the instruction that it dispatches. -/
theorem Machine.filter_trace_step (m : Machine size) (h : σ) :
    (m.step h).records.filter (fun r => r.level = .trace) = m.dispatched?.toList := by
  rw [m.records_step, dispatched?]
  cases m.stepCases h with
  | blocked hx _ hs | keyStored hx _ hs =>
    rw [hs, hx]
    rfl
  | unreadable hx hn hs | refused hx hn _ hs =>
    rw [hs, hx, hn]
    rfl
  | @executed w i hx hn _ hs =>
    rw [hs, hx, hn]
    cases i <;> rfl

/-- The one warning of an event is how a step fails in which it happens. -/
theorem Event.filter_warn (pc : UInt16) (e : Event) :
    (e.records pc).filter (fun r => r.level = .warn) =
      match e.outcome with
      | .failed e => [.failed pc e]
      | _ => [] := by
  cases e with
  | executed w i => cases i <;> rfl
  | _ => rfl

namespace Moment

theorem filter_trace (x : Moment size σ) :
    x.records.filter (fun r => r.level = .trace) = x.dispatched?.toList := by
  rw [records, dispatched?]
  cases x.move with
  | step => exact x.before.machine.filter_trace_step x.before.host
  | tick | alter h => rfl

theorem filter_warn (x : Moment size σ) :
    x.records.filter (fun r => r.level = .warn) = x.failed?.toList := by
  rw [records, failed?]
  cases x.move with
  | step =>
    dsimp only
    rw [Session.records_step, Event.filter_warn]
    cases x.before.step.event.outcome <;> rfl
  | tick | alter h => rfl

end Moment

/-! ## A session that keeps a log -/

/-- A run adds the records of its steps, one step after the other. -/
theorem toList_gathered_runFor (budget : Nat) (log : Array Record) (s : Session size σ) :
    (s.machine.runFor (fun log _ t => log.appendList t.records) budget log s.host).gathered.toList
      = log.toList ++ (Session.runTrail budget s).flatMap Moment.records := by
  induction budget generalizing log s with
  | zero => exact (List.append_nil _).symm
  | succ budget ih =>
    cases runCases (fun log _ t => log.appendList t.records) budget log s with
    | ended _ hr ht =>
      rw [hr, ht]
      exact (List.append_nil _).symm
    | stopped _ _ hr ht =>
      rw [hr, ht, List.flatMap_singleton]
      exact Array.toList_appendList
    | went _ _ hr ht =>
      rw [hr, ht, ih, List.flatMap_cons, ← List.append_assoc]
      exact congrArg (· ++ _) Array.toList_appendList

/-- A session, and what it has logged so far. -/
structure Logged (size : Nat) (σ : Type) where
  session : Session size σ
  log : Array Record

namespace Logged

/-- The log as text. -/
def lines (l : Logged size σ) : List String := l.log.toList.map Record.line

/-- The session after a request, with the log that has been kept on the way. -/
def request (l : Logged size σ) : Request σ → Logged size σ
  | .move .step =>
    ⟨l.session.after .step, l.log.appendList l.session.step.records⟩
  | .move mv => ⟨l.session.after mv, l.log⟩
  | .run =>
    let r := l.session.machine.runLogged l.log l.session.host
    ⟨⟨r.machine, r.host⟩, r.gathered⟩

/-- The same for a list of requests. -/
def requests (l : Logged size σ) (rs : List (Request σ)) : Logged size σ := rs.foldl request l

theorem request_eq (l : Logged size σ) (r : Request σ) :
    (l.request r).session = l.session.request r
      ∧ (l.request r).log.toList
        = l.log.toList ++ (l.session.moments r).flatMap Moment.records := by
  cases r with
  | move mv =>
    rw [Session.moments, List.flatMap_singleton]
    cases mv with
    | step => exact ⟨rfl, Array.toList_appendList⟩
    | tick | alter h => exact ⟨rfl, (List.append_nil _).symm⟩
  | run =>
    obtain ⟨-, hm, hh⟩ := Machine.runFor_gather (fun log _ t => log.appendList t.records)
      (fun _ _ _ => ()) Machine.maxRunSteps l.log () l.session.machine l.session.host
    exact ⟨congr (congrArg Session.mk hm) hh, toList_gathered_runFor _ _ _⟩

/-- **A log is kept without being noticed, and follows the trail.** -/
theorem requests_eq (l : Logged size σ) (rs : List (Request σ)) :
    (l.requests rs).session = l.session.requests rs
      ∧ (l.requests rs).log.toList
        = l.log.toList ++ (l.session.trail rs).flatMap Moment.records := by
  induction rs generalizing l with
  | nil => exact ⟨rfl, (List.append_nil _).symm⟩
  | cons r rs ih =>
    obtain ⟨h1, h2⟩ := l.request_eq r
    obtain ⟨h3, h4⟩ := ih (l.request r)
    rw [h1] at h3 h4
    refine ⟨h3, h4.trans ?_⟩
    rw [h2, Session.trail, List.flatMap_append, List.append_assoc]

end Logged

/-- What a level keeps of a log, if it is known what it keeps of each move. -/
theorem filter_flatMap_records {p : Record → Bool} {f : Moment size σ → Option Record}
    (h : ∀ x : Moment size σ, x.records.filter p = (f x).toList) (xs : List (Moment size σ)) :
    (xs.flatMap Moment.records).filter p = xs.filterMap f := by
  induction xs with
  | nil => rfl
  | cons x xs ih =>
    rw [List.flatMap_cons, List.filter_append, List.filterMap_cons, h, ih]
    cases f x <;> rfl

/--
**The log of a session is what its steps record, step by step.**

`l` is any session with what it has logged so far, such as one that was just loaded. The
requests lead where they lead without a log, and they add to it what was noted on the moves
in the trail, in order. The lines that this adds show these records and can be taken for no others.
Of the records, a step notes exactly those that `StepRecords` has for it, with the program counter
from before the step, and no other move notes any. So the traces that were added are the
instructions that were dispatched, and the warnings are the steps that failed.
-/
theorem log_follows_trail (l : Logged size σ) (rs : List (Request σ)) :
    (l.requests rs).session = l.session.requests rs
      ∧ (l.requests rs).log.toList
        = l.log.toList ++ (l.session.trail rs).flatMap Moment.records
      ∧ (l.requests rs).lines = l.lines ++ linesOf (l.session.trail rs)
      ∧ (∀ records, List.Forall₂ Record.Shows records (linesOf (l.session.trail rs))
          ↔ records = (l.session.trail rs).flatMap Moment.records)
      ∧ (∀ s : Session size σ, ∀ records,
          StepRecords s.machine s.host records ↔ records = (⟨s, .step⟩ : Moment size σ).records)
      ∧ (∀ x : Moment size σ, x.move ≠ .step → x.records = [])
      ∧ (l.requests rs).log.toList.filter (fun r => r.level = .trace)
        = l.log.toList.filter (fun r => r.level = .trace)
          ++ (l.session.trail rs).filterMap Moment.dispatched?
      ∧ (l.requests rs).log.toList.filter (fun r => r.level = .warn)
        = l.log.toList.filter (fun r => r.level = .warn)
          ++ (l.session.trail rs).filterMap Moment.failed? := by
  obtain ⟨hs, hl⟩ := l.requests_eq rs
  refine ⟨hs, hl, ?_, fun records => Record.forall₂_shows_iff, fun s records => stepRecords_iff,
    fun x => Moment.records_eq_nil, ?_, ?_⟩
  · rw [Logged.lines, hl, List.map_append]
    rfl
  · rw [hl, List.filter_append, filter_flatMap_records Moment.filter_trace]
  · rw [hl, List.filter_append, filter_flatMap_records Moment.filter_warn]

/-- A program that waits for a key and then returns from no subroutine, while the keys 7 and 14
are down. -/
theorem log_follows_trail_key_and_fault :
    ∃ l : Logged 4096 Scripted,
      Machine.load 4096 #[0xF3, 0x0A, 0x00, 0xEE] = .ok l.session.machine
      ∧ l.log = #[.ofLoad l.session.machine]
      ∧ (l.requests [.run]).session = l.session.requests [.run]
      ∧ (l.requests [.run]).log.toList
        = [.ofLoad l.session.machine,
          .dispatched 0x200 0xF30A (.awaitKey 3), .waiting 0x200 3,
          .keyStored 7 3,
          .dispatched 0x202 0x00EE .ret, .failed 0x202 .stackEmpty]
      ∧ (l.requests [.run]).lines
        = ["DEBUG loaded 4 of 3232 bytes of program memory",
          "TRACE 0x200: F30A _FX0A \x7b x: 3 \x7d", "DEBUG pc=0x200: waiting for a key for V3",
          "DEBUG key 7 pressed, stored in V3",
          "TRACE 0x202: 00EE _00EE", "WARN pc=0x202: cannot return, not in subroutine"]
      ∧ (l.requests [.run]).log.toList.filter (fun r => r.level = .trace)
        = (l.session.trail [.run]).filterMap Moment.dispatched?
      ∧ (l.requests [.run]).log.toList.filter (fun r => r.level = .warn)
        = (l.session.trail [.run]).filterMap Moment.failed? := by
  have hd : Layout.displayStart 4096 = 3840 := Layout.displayStart_eq _
  obtain ⟨s, hh, hm, h0⟩ := Session.exists_atWord_host 4096 #[0xF3, 0x0A, 0x00, 0xEE]
    (Scripted.start ((Keypad.released.put 14 true).put 7 true) #[]) (by decide)
  obtain ⟨e0, a0⟩ := Session.step_of_atWord (i := .awaitKey 3) h0 (by omega) (by decide) rfl rfl
  -- the wait begins, and then it ends
  obtain ⟨t, ht⟩ : ∃ t, t = s.after .step := ⟨_, rfl⟩
  replace a0 : t = ⟨{ s.machine with awaiting := some 3 }, s.host⟩ := ht.trans a0
  have hth : t.host = .start ((Keypad.released.put 14 true).put 7 true) #[] := by
    rw [a0]
    exact hh
  have e1 : t.step
      = ⟨Event.account t.machine.pc (.keyStored 7 3), t.machine.storeKey 7 3, t.host⟩ := by
    rw [Session.step, hth]
    exact Machine.step_of_pressed (by rw [a0]) (by decide) (by decide)
  obtain ⟨u, hu⟩ : ∃ u, u = t.after .step := ⟨_, rfl⟩
  have a1 : u = ⟨t.machine.storeKey 7 3, t.host⟩ := by rw [hu, Session.after, e1]
  -- and then there is no subroutine to return from
  have h1 : u.machine.AtWord #[0xF3, 0x0A, 0x00, 0xEE] 1 := by
    rw [a1, a0]
    exact ⟨congrArg (· + 2) h0.pc_eq, rfl, h0.low_eq, h0.programEnd_eq⟩
  have hstack : u.machine.stack = [] := by
    rw [a1, a0]
    exact congrArg Machine.stack (Machine.load_eq_ok_iff.mp hm).2
  have e2 : u.step.event = .refused (wordAt #[0xF3, 0x0A, 0x00, 0xEE] 1) .ret .stackEmpty := by
    have h2 := Machine.event_of_next h1.awaiting_eq
      (h1.next (i := .ret) (by omega) (by decide) rfl) u.host
    rwa [Machine.obstacle?, hstack] at h2
  have hlt0 : s.machine.pc.toNat < s.machine.programEnd := by
    rw [h0.pc_toNat (by decide), h0.programEnd_eq]
    decide
  have hlt1 : t.machine.pc.toNat < t.machine.programEnd := by
    rw [a0]
    exact hlt0
  have hlt2 : u.machine.pc.toNat < u.machine.programEnd := by
    rw [h1.pc_toNat (by decide), h1.programEnd_eq]
    decide
  have hstop : s.StopsAt 2 := by
    refine Session.StopsAt.succ ?_ hlt0 (by rw [e0]; rfl)
    rw [← ht]
    refine Session.StopsAt.succ ?_ hlt1 (by rw [e1]; rfl)
    rw [← hu]
    refine .zero (.inr ?_)
    rw [e2]
    decide
  have htrail : s.trail [.run] = [⟨s, .step⟩, ⟨t, .step⟩, ⟨u, .step⟩] := by
    rw [hu, ht]
    refine Session.trail_of_lt hstop (by decide) ?_
    show ((s.after .step).after .step).machine.pc.toNat
      < ((s.after .step).after .step).machine.programEnd
    rw [← ht, ← hu]
    exact hlt2
  have hrecords : (s.trail [.run]).flatMap Moment.records
      = [.dispatched 0x200 0xF30A (.awaitKey 3), .waiting 0x200 3, .keyStored 7 3,
        .dispatched 0x202 0x00EE .ret, .failed 0x202 .stackEmpty] := by
    rw [htrail]
    show s.step.records ++ (t.step.records ++ (u.step.records ++ [])) = _
    rw [e1, s.records_step, u.records_step, e0, e2, h0.pc_eq, h1.pc_eq]
    rfl
  have hload : Record.ofLoad s.machine = .loaded 4 3232 := by
    rw [Record.ofLoad, (Machine.load_eq_ok_iff.mp hm).2, Layout.capacity_eq]
    rfl
  obtain ⟨hsession, hlog, hlines, -, -, -, htrace, hwarn⟩ :=
    log_follows_trail ⟨s, #[.ofLoad s.machine]⟩ [.run]
  rw [hrecords] at hlog
  refine ⟨_, hm, rfl, hsession, hlog, hlines.trans ?_, htrace, hwarn⟩
  show [Record.line _] ++ (((s.trail [.run]).flatMap Moment.records).map Record.line) = _
  rw [hrecords, hload]
  decide

end ChipEight
