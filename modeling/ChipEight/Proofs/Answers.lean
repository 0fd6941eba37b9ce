import ChipEight.Proofs.Recording
import ChipEight.Proofs.StraightLine

/-!
# Only the answers matter

A machine depends on its host through the answers alone. Two sessions may have quite
different hosts, and these may be changed at different times; `SameDemands` says that
the same is asked of the two machines, in the same order.

In one and the same machine the next question is the same, too. So if the answers agree, the
first with the first, the second with the second and so on, then the machines stay equal.
`Agree` speaks only of answers that both of them have got. That there are equally many is
not assumed: it comes out in the end, since a machine would have to ask another question
before it could get another number of answers.
-/

namespace ChipEight

variable {size : Nat} {σ τ α β γ : Type} [Host σ] [Host τ]

/-! ## Answers that agree -/

/-- Where both lists have an entry, it is the same. -/
def Agree (xs ys : List α) : Prop :=
  ∀ (j : Nat) (x y : α), xs[j]? = some x → ys[j]? = some y → x = y

namespace Agree

theorem of_cons {x y : α} {xs ys : List α} (h : Agree (x :: xs) (y :: ys)) :
    x = y ∧ Agree xs ys :=
  ⟨h 0 x y rfl rfl, fun j => h (j + 1)⟩

/-- What is picked out of the first entries is the same, if it is picked out of both. -/
theorem of_filterMap_cons {f : β → Option α} {g : γ → Option α} {x : β} {y : γ} {xs : List β}
    {ys : List γ} (hs : (f x).isSome = (g y).isSome)
    (h : Agree ((x :: xs).filterMap f) ((y :: ys).filterMap g)) :
    f x = g y ∧ Agree (xs.filterMap f) (ys.filterMap g) := by
  cases hf : f x with
  | none =>
    cases hg : g y with
    | none =>
      rw [List.filterMap_cons_none hf, List.filterMap_cons_none hg] at h
      exact ⟨rfl, h⟩
    | some b =>
      rw [hf, hg] at hs
      cases hs
  | some a =>
    cases hg : g y with
    | none =>
      rw [hf, hg] at hs
      cases hs
    | some b =>
      rw [List.filterMap_cons_some hf, List.filterMap_cons_some hg] at h
      obtain ⟨hab, h⟩ := h.of_cons
      exact ⟨congrArg some hab, h⟩

end Agree

/-- Both kinds of answers agree. -/
structure Answers.Agree (a b : Answers) : Prop where
  keypads : ChipEight.Agree a.keypads b.keypads
  bytes : ChipEight.Agree a.bytes b.bytes

namespace Moment

variable {x : Moment size σ} {y : Moment size τ}

/-- Where the same is asked, agreement goes from the first moments to the others. -/
theorem agree_of_cons (hq : y.question? = x.question?) {xs : List (Moment size σ)}
    {ys : List (Moment size τ)} (h : (answersOf (x :: xs)).Agree (answersOf (y :: ys))) :
    x.keypad? = y.keypad? ∧ x.byte? = y.byte? ∧ (answersOf xs).Agree (answersOf ys) := by
  have hk : x.keypad?.isSome = y.keypad?.isSome := by
    rw [keypad?, keypad?, hq]
    split <;> rfl
  have hb : x.byte?.isSome = y.byte?.isSome := by
    rw [byte?, byte?, hq]
    split <;> rfl
  obtain ⟨hk, hks⟩ := Agree.of_filterMap_cons hk h.keypads
  obtain ⟨hb, hbs⟩ := Agree.of_filterMap_cons hb h.bytes
  exact ⟨hk, hb, hks, hbs⟩

theorem answersOf_congr (hk : x.keypad? = y.keypad?) (hb : x.byte? = y.byte?) :
    answersOf [y] = answersOf [x] := by
  rw [answersOf, answersOf, List.filterMap_cons, List.filterMap_cons, List.filterMap_cons,
    List.filterMap_cons, hk, hb]
  rfl

/-- What both were told is what both asked for. -/
theorem sameAnswer (hq : y.question? = x.question?) (hk : x.keypad? = y.keypad?)
    (hb : x.byte? = y.byte?) :
    Question.SameAnswer x.before.host y.before.host x.question? := by
  rw [keypad?, keypad?, hq] at hk
  rw [byte?, byte?, hq] at hb
  cases h : x.question? with
  | none => trivial
  | some q =>
    cases q with
    | keys =>
      rw [h] at hk
      exact Option.some.inj hk
    | byte =>
      rw [h] at hb
      exact Option.some.inj hb

end Moment

/-! ## Two sessions with the same machine -/

/-- What can be asked of a machine itself. -/
inductive Demand where
  | step
  | tick
  | run

def Demand.request : Demand → Request σ
  | .step => .move .step
  | .tick => .move .tick
  | .run => .run

/-- The same is asked of both machines. Either may get another host at any time. -/
inductive SameDemands : List (Request σ) → List (Request τ) → Prop where
  | nil : SameDemands [] []
  | alterLeft {rs : List (Request σ)} {rs' : List (Request τ)} (h : σ) :
      SameDemands rs rs' → SameDemands (.move (.alter h) :: rs) rs'
  | alterRight {rs : List (Request σ)} {rs' : List (Request τ)} (h : τ) :
      SameDemands rs rs' → SameDemands rs (.move (.alter h) :: rs')
  | demand {rs : List (Request σ)} {rs' : List (Request τ)} (d : Demand) :
      SameDemands rs rs' → SameDemands (d.request :: rs) (d.request :: rs')

/-- The reply is one of the machine. -/
def Reply.isResult : Reply → Bool
  | .altered => false
  | _ => true

/-- What comes back from what is asked of the machine itself. -/
def Session.results (s : Session size σ) (rs : List (Request σ)) : List Reply :=
  (s.replies rs).filter Reply.isResult

theorem Demand.isResult_reply (d : Demand) (s : Session size σ) :
    (s.reply d.request).isResult = true := by
  cases d <;> rfl

namespace Session

variable {s : Session size σ} {t : Session size τ} {xs : List (Moment size σ)}
  {ys : List (Moment size τ)}

/-- A step of the same machine, with answers that agree. -/
theorem step_of_agree (hm : t.machine = s.machine)
    (h : (answersOf (⟨s, .step⟩ :: xs)).Agree (answersOf (⟨t, .step⟩ :: ys))) :
    t.step.event = s.step.event
      ∧ (t.after .step).machine = (s.after .step).machine
      ∧ answersOf [⟨t, .step⟩] = answersOf [⟨s, .step⟩]
      ∧ (answersOf xs).Agree (answersOf ys) := by
  have hq : (Moment.mk t .step).question? = (Moment.mk s .step).question? :=
    congrArg Machine.question? hm
  obtain ⟨hk, hb, hrest⟩ := Moment.agree_of_cons hq h
  obtain ⟨he, ha⟩ := Machine.step_congr (Moment.sameAnswer hq hk hb)
  refine ⟨?_, ?_, Moment.answersOf_congr hk hb, hrest⟩
  · rw [step, hm]
    exact he
  · rw [after, step, hm]
    exact ha

omit [Host τ] in
/-- A run that has not left the program takes a step. -/
theorem runTrail_of_lt (budget : Nat) (h : s.machine.pc.toNat < s.machine.programEnd) :
    ∃ zs, runTrail (budget + 1) s = ⟨s, .step⟩ :: zs := by
  cases runCases (fun _ _ _ => ()) budget () s with
  | ended hend _ _ => exact absurd h (Nat.not_lt.mpr hend)
  | went _ _ _ ht => exact ⟨_, ht⟩
  | stopped _ _ _ ht => exact ⟨[], ht⟩

/-- Whatever becomes of the run of the second machine, its first step is that of the first one. -/
theorem first_step_of_agree (budget : Nat) (hm : t.machine = s.machine)
    (hlt : t.machine.pc.toNat < t.machine.programEnd)
    (h : (answersOf (⟨s, .step⟩ :: xs)).Agree (answersOf (runTrail (budget + 1) t ++ ys))) :
    t.step.event = s.step.event := by
  obtain ⟨zs, hzs⟩ := runTrail_of_lt budget hlt
  rw [hzs] at h
  exact (step_of_agree hm h).1

/-- A run of the same machine, with answers that agree. -/
theorem runFor_of_agree (gather : α → UInt16 → Account → α) (budget : Nat) (a : α)
    (hm : t.machine = s.machine)
    (h : (answersOf (runTrail budget s ++ xs)).Agree (answersOf (runTrail budget t ++ ys))) :
    ∃ k m a' h' g',
      s.machine.runFor gather budget a s.host = ⟨k, m, h', a'⟩
        ∧ t.machine.runFor gather budget a t.host = ⟨k, m, g', a'⟩
        ∧ answersOf (runTrail budget t) = answersOf (runTrail budget s)
        ∧ (answersOf xs).Agree (answersOf ys) := by
  induction budget generalizing a s t with
  | zero => exact ⟨.stepLimit, s.machine, a, s.host, t.host, rfl, by rw [hm]; rfl, rfl, h⟩
  | succ budget ih =>
    cases runCases gather budget a s with
    | ended hend hr ht =>
      have hend' : t.machine.programEnd ≤ t.machine.pc.toNat := by rw [hm]; exact hend
      have ht' := runTrail_of_end (budget + 1) hend'
      rw [ht, ht'] at h
      exact ⟨_, _, _, _, _, hr, by rw [runFor_of_end gather budget a hend', hm],
        by rw [ht, ht']; rfl, h⟩
    | went hlt ho hr ht =>
      have hlt' : t.machine.pc.toNat < t.machine.programEnd := by rw [hm]; exact hlt
      rw [ht] at h
      have he := first_step_of_agree budget hm hlt' h
      have hacc : t.step.toAccount = s.step.toAccount :=
        Machine.account_congr (congrArg Machine.pc hm) he
      have ho' : t.step.event.outcome = .done := by rw [he]; exact ho
      have ht' := runTrail_of_done budget hlt' ho'
      rw [ht'] at h
      -- the second run goes on as well, and the rest of its answers agree
      obtain ⟨-, ha, hans, hrest⟩ := step_of_agree hm h
      obtain ⟨k, m, a', h', g', hs, ht'', hrun, hrest⟩ :=
        ih (gather a s.machine.pc s.step.toAccount) ha hrest
      refine ⟨k, m, a', h', g', hr.trans hs, ?_, ?_, hrest⟩
      · rw [runFor_of_done gather budget a hlt' ho', hm, hacc]
        exact ht''
      · rw [ht, ht', answersOf_cons, hans, hrun, ← answersOf_cons]
    | @stopped k hlt hk hr ht =>
      have hlt' : t.machine.pc.toNat < t.machine.programEnd := by rw [hm]; exact hlt
      rw [ht] at h
      have he := first_step_of_agree budget hm hlt' h
      have hacc : t.step.toAccount = s.step.toAccount :=
        Machine.account_congr (congrArg Machine.pc hm) he
      have hk' : t.step.event.outcome.halt? = some k := by rw [he]; exact hk
      have hd' : t.step.event.outcome ≠ .done := by
        intro ho
        rw [ho] at hk'
        cases hk'
      have ht' := runTrail_of_ne_done budget hlt' hd'
      rw [ht'] at h
      obtain ⟨-, ha, hans, hrest⟩ := step_of_agree hm h
      have hma : t.step.machine = s.step.machine := ha
      refine ⟨k, _, _, _, t.step.host, hr, ?_, ?_, hrest⟩
      · rw [runFor_of_halt gather budget a hlt' hk', hm, hacc, hma]
      · rw [ht, ht', hans]

/-- Whatever is demanded, the machines reply alike and stay the same. -/
theorem request_of_agree (d : Demand) (hm : t.machine = s.machine)
    (h : (answersOf (s.moments d.request ++ xs)).Agree
      (answersOf (t.moments d.request ++ ys))) :
    t.reply d.request = s.reply d.request
      ∧ (t.request d.request).machine = (s.request d.request).machine
      ∧ answersOf (t.moments d.request) = answersOf (s.moments d.request)
      ∧ (answersOf xs).Agree (answersOf ys) := by
  cases d with
  | step =>
    obtain ⟨he, ha, hans, hrest⟩ := step_of_agree hm h
    refine ⟨?_, ha, hans, hrest⟩
    show Reply.stepped t.step.event.outcome = .stepped s.step.event.outcome
    rw [he]
  | tick =>
    refine ⟨?_, congrArg Machine.tick hm, rfl, h⟩
    show Reply.ticked t.machine.tickReport = .ticked s.machine.tickReport
    rw [hm]
  | run =>
    obtain ⟨k, m, _, h', g', hs, ht, hans, hrest⟩ :=
      runFor_of_agree (fun _ _ _ => ()) Machine.maxRunSteps () hm h
    refine ⟨?_, ?_, hans, hrest⟩
    · show Reply.halted (Machine.runFor _ _ _ _ _).halt = .halted (Machine.runFor _ _ _ _ _).halt
      rw [hs, ht]
    · show (Machine.runFor _ _ _ _ _).machine = (Machine.runFor _ _ _ _ _).machine
      rw [hs, ht]

/-- **And so they do over any requests.** -/
theorem requests_of_agree {rs : List (Request σ)} {rs' : List (Request τ)}
    (hd : SameDemands rs rs') (hm : t.machine = s.machine)
    (h : (answersOf (s.trail rs)).Agree (answersOf (t.trail rs'))) :
    t.results rs' = s.results rs
      ∧ (t.requests rs').machine = (s.requests rs).machine
      ∧ answersOf (t.trail rs') = answersOf (s.trail rs) := by
  induction hd generalizing s t with
  | nil => exact ⟨rfl, hm, rfl⟩
  | alterLeft h' _ ih =>
    have hs : s.machine = (s.after (.alter h')).machine := rfl
    exact ih (hm.trans hs) h
  | alterRight h' _ ih =>
    have ht : (t.after (.alter h')).machine = t.machine := rfl
    exact ih (ht.trans hm) h
  | @demand rs rs' d _ ih =>
    obtain ⟨hr, ha, hans, hrest⟩ := request_of_agree d hm h
    obtain ⟨hrs, has, hanss⟩ := ih ha hrest
    refine ⟨?_, has, ?_⟩
    · rw [results, replies, List.filter_cons_of_pos (d.isResult_reply t), results, replies,
        List.filter_cons_of_pos (d.isResult_reply s), hr]
      exact congrArg (_ :: ·) hrs
    · rw [trail, trail, answersOf_append, answersOf_append, hans, hanss]

end Session

/-! ## Exactly the answers -/

/-- Where the answer to a roll stands among the bytes. -/
theorem getElem?_bytes {xs ys : List (Moment size σ)} {x : Moment size σ} {b : UInt8}
    (hb : x.byte? = some b) :
    (answersOf (xs ++ x :: ys)).bytes[xs.countP Moment.rolls]? = some b := by
  show ((xs ++ x :: ys).filterMap Moment.byte?)[xs.countP Moment.rolls]? = some b
  have hlen : (xs.filterMap Moment.byte?).length = xs.countP Moment.rolls := length_bytes xs
  rw [List.filterMap_append, List.filterMap_cons_some hb, ← hlen,
    List.getElem?_append_right (Nat.le_refl _), Nat.sub_self]
  rfl

/--
**A host is asked for exactly what is needed, and only its answers matter.**

Let a session and some requests be recorded. That changes nothing. As many random bytes
were asked for as instructions were carried out that make one, and each of these has left
its own byte, masked, in its register. The keys were asked for as often as an instruction
that looks at one was carried out, and once more for each step that began while a key was
awaited. Another session with the same machine, of which the same is asked, has the same
results and ends in the same machine, as long as those answers agree that both have got; and
it has got as many of them. When either of the hosts was altered, and how, is of no account.
-/
theorem only_answers_matter (s : Session size σ) (rs : List (Request σ)) :
    ((s.recording rs).machine = (s.requests rs).machine
        ∧ (s.recording rs).host.inner = (s.requests rs).host)
      ∧ ((s.answers rs).bytes.length = (s.trail rs).countP Moment.rolls
        ∧ ∀ xs x ys r n, s.trail rs = xs ++ x :: ys → x.executed? = some (.random r n) →
            ∃ b, (s.answers rs).bytes[xs.countP Moment.rolls]? = some b
              ∧ x.after.machine.v r = b &&& n)
      ∧ (s.answers rs).keypads.length
          = (s.trail rs).countP Moment.looks + (s.trail rs).countP Moment.waits
      ∧ ∀ (t : Session size τ) (rs' : List (Request τ)), t.machine = s.machine →
          SameDemands rs rs' → (s.answers rs).Agree (t.answers rs') →
            t.results rs' = s.results rs
              ∧ (t.requests rs').machine = (s.requests rs).machine
              ∧ t.answers rs' = s.answers rs := by
  rw [s.recording_eq, s.answers_eq]
  refine ⟨⟨rfl, rfl⟩, ⟨length_bytes _, ?_⟩, length_keypads _, ?_⟩
  · intro xs x ys r n ht hx
    obtain ⟨b, hb, hv⟩ := x.v_of_random hx
    rw [ht]
    exact ⟨b, getElem?_bytes hb, hv⟩
  · intro t rs' hm hd h
    rw [t.answers_eq] at h ⊢
    exact Session.requests_of_agree hd hm h

/-- A program that rolls for a key and looks whether it is down. One host has put it down from the
start, the other only after the roll, and does not keep its second random byte. -/
theorem only_answers_matter_key_put_down_late :
    ∃ (s t : Session 4096 Scripted) (rs rs' : List (Request Scripted)),
      Machine.load 4096 #[0xC0, 0x0F, 0xE0, 0x9E] = .ok s.machine ∧ t.machine = s.machine
      ∧ s.host = .start (Keypad.released.put 7 true) #[0x17]
      ∧ t.host = .start .released #[0x17, 0x2A]
      ∧ rs = [.move .step, .move .step]
      ∧ rs' = [.move .step, .move (.alter (.start (Keypad.released.put 7 true) #[])), .move .step]
      ∧ s.answers rs = ⟨[Keypad.released.put 7 true], [0x17]⟩
      ∧ (s.after .step).machine.v 0 = 7
      ∧ t.results rs' = s.results rs
      ∧ (t.requests rs').machine = (s.requests rs).machine := by
  have hd : Layout.displayStart 4096 = 3840 := Layout.displayStart_eq _
  obtain ⟨⟨m, _⟩, hm, h0⟩ :=
    Session.exists_atWord 4096 #[0xC0, 0x0F, 0xE0, 0x9E] Headless.mk (by decide)
  -- the first step rolls, and the second one looks at the keys, whoever the host is
  have roll : ∀ u : Session 4096 Scripted, u.machine = m →
      (Moment.mk u .step).executed? = some (.random 0 15)
        ∧ (u.after .step).host = (Host.random u.host).2
        ∧ (u.after .step).machine.AtWord #[0xC0, 0x0F, 0xE0, 0x9E] 1 := by
    intro u hu
    have hu0 : u.machine.AtWord #[0xC0, 0x0F, 0xE0, 0x9E] 0 := by rw [hu]; exact h0
    obtain ⟨he, ha, h1⟩ :=
      Session.step_of_isStraight (i := .random 0 15) hu0 (by omega) (by decide) rfl rfl
    exact ⟨by rw [Moment.executed?, he]; rfl, by rw [ha]; rfl, h1⟩
  have look : ∀ u : Session 4096 Scripted, u.machine.AtWord #[0xC0, 0x0F, 0xE0, 0x9E] 1 →
      (Moment.mk u .step).executed? = some (.skipIfKey 0) := by
    intro u h1
    obtain ⟨he, -⟩ := Session.step_of_atWord (i := .skipIfKey 0) h1 (by omega) (by decide) rfl rfl
    rw [Moment.executed?, he]
    rfl
  obtain ⟨s, hs⟩ : ∃ s : Session 4096 Scripted,
    s = ⟨m, .start (Keypad.released.put 7 true) #[0x17]⟩ := ⟨_, rfl⟩
  obtain ⟨t, ht⟩ : ∃ t : Session 4096 Scripted, t = ⟨m, .start .released #[0x17, 0x2A]⟩ := ⟨_, rfl⟩
  obtain ⟨late, hlate⟩ : ∃ late : Scripted, late = .start (Keypad.released.put 7 true) #[] :=
    ⟨_, rfl⟩
  obtain ⟨hsr, hsh, hs1⟩ := roll s (by rw [hs])
  obtain ⟨htr, -, ht1⟩ := roll t (by rw [ht])
  have hsa : s.answers [.move .step, .move .step] = ⟨[Keypad.released.put 7 true], [0x17]⟩ := by
    rw [s.answers_eq]
    show answersOf [⟨s, .step⟩, ⟨s.after .step, .step⟩] = _
    rw [answersOf_cons, answersOf_of_executed hsr, answersOf_of_executed (look _ hs1), hsh, hs]
    rfl
  have hta : t.answers [.move .step, .move (.alter late), .move .step]
      = ⟨[Keypad.released.put 7 true], [0x17]⟩ := by
    rw [t.answers_eq]
    show answersOf [⟨t, .step⟩, ⟨(t.after .step).after (.alter late), .step⟩] = _
    rw [answersOf_cons, answersOf_of_executed htr,
      answersOf_of_executed (look ((t.after .step).after (.alter late)) ht1), ht, hlate]
    rfl
  obtain ⟨-, ⟨-, hroll⟩, -, htwo⟩ :=
    @only_answers_matter 4096 Scripted Scripted _ _ s [.move .step, .move .step]
  obtain ⟨b, hb, hv⟩ := hroll [] ⟨s, .step⟩ [⟨s.after .step, .step⟩] 0 15 rfl hsr
  obtain ⟨hresults, hmachine, -⟩ := htwo t [.move .step, .move (.alter late), .move .step]
    (by rw [hs, ht]) (.demand .step (.alterRight late (.demand .step .nil)))
    (by
      rw [hsa, hta]
      exact ⟨fun j x y hx hy => Option.some.inj (hx.symm.trans hy),
        fun j x y hx hy => Option.some.inj (hx.symm.trans hy)⟩)
  refine ⟨s, t, _, _, by rw [hs]; exact hm, by rw [hs, ht], by rw [hs], by rw [ht], rfl,
    by rw [hlate], hsa, ?_, hresults, hmachine⟩
  rw [hsa] at hb
  cases hb
  exact hv

end ChipEight
