import ChipEight.Proofs.Beeper
import ChipEight.Proofs.Ticks

/-!
# Where the timers stand

A timer is one byte, and a tick takes one off it unless it is at rest. So where it stands
can be read off the history: it is the byte that was stored last, less the ticks since
then, and it started at 60. `lastStored` and `ticksSince` are these two numbers for a list
of moments, and they are found for both timers in the same way. Only the instruction that
stores is a different one.

Nothing else has a part in it. `TimerChange` lists what a moment can do to a timer, and a
step that fails, waits or carries out any other instruction leaves it as it was.

What the ticks report follows from where the sound timer stands. Between two stores the
reports are those of a timer that runs down once: `on` until the last, then `finished`,
and `off` from then on.
-/

namespace ChipEight

variable {size : Nat} {σ : Type} [Host σ]

/-! ## The course of one timer -/

namespace Timer

theorem report_eq (t : Timer) :
    t.report
      = if t.value.toNat = 0 then .off else if t.value.toNat = 1 then .finished else .on := by
  have h0 : t.value = 0 ↔ t.value.toNat = 0 := UInt8.toNat_inj.symm
  have h1 : t.value = 1 ↔ t.value.toNat = 1 := UInt8.toNat_inj.symm
  rw [report]
  simp only [h0, h1]

/-- What the ticks report until a timer is at rest. -/
def course (t : Timer) : List Tick :=
  if t.value = 0 then [] else List.replicate (t.value.toNat - 1) .on ++ [.finished]

theorem course_of_ne_zero (t : Timer) (h : t.value ≠ 0) :
    t.course = t.report :: t.next.course := by
  have hn := t.toNat_next
  rcases t.report_next with ⟨hr, -, hp⟩ | ⟨hr, -, hz⟩ | ⟨-, hz, -⟩
  · have hpos : t.next.value ≠ 0 := UInt8.pos_iff_ne_zero.mp hp
    have hlen : t.value.toNat - 1 = t.next.value.toNat - 1 + 1 := by
      have : t.next.value.toNat ≠ 0 := fun h0 => hpos (UInt8.toNat_inj.mp h0)
      omega
    rw [course, course, if_neg h, if_neg hpos, hlen, List.replicate_succ, hr]
    rfl
  · have hlen : t.value.toNat - 1 = 0 := by rw [← hn, hz]; rfl
    rw [course, course, if_neg h, if_pos hz, hlen, hr]
    rfl
  · exact absurd hz h

/-- **A timer reports its course, and then that it is off.** -/
theorem reports_prefix (t : Timer) (n : Nat) :
    t.reports n <+: t.course ++ List.replicate n .off := by
  induction n generalizing t with
  | zero => exact List.nil_prefix
  | succ n ih =>
    have hrest : t.next.reports n <+: t.next.course ++ List.replicate (n + 1) .off := by
      rw [List.replicate_succ', ← List.append_assoc]
      exact (ih t.next).trans (List.prefix_append _ _)
    rw [reports]
    by_cases h : t.value = 0
    · -- a timer at rest stays there
      have hr : t.report = .off := if_pos h
      have hnext : t.next = t := if_pos h
      have hcourse : t.course = [] := if_pos h
      have := ih t
      rw [hcourse, List.nil_append] at this ⊢
      rw [hr, hnext, List.replicate_succ, List.cons_prefix_cons]
      exact ⟨rfl, this⟩
    · rw [course_of_ne_zero t h, List.cons_append, List.cons_prefix_cons]
      exact ⟨rfl, hrest⟩

end Timer

/-! ## What a moment does to a timer -/

namespace Moment

/-- The byte that goes into the delay timer, if the move is a step that stores one there. -/
def delayStored? (x : Moment size σ) : Option UInt8 :=
  match x.executed? with
  | some (.setDelay r) => some (x.before.machine.v r)
  | _ => none

omit [Host σ] in
theorem report?_eq (x : Moment size σ) :
    x.report? = if x.move.isTick then some x.before.machine.sound.report else none := by
  obtain ⟨s, mv⟩ := x
  cases mv <;> rfl

omit [Host σ] in
theorem isTick_eq (x : Moment size σ) : x.move.isTick = x.report?.isSome := by
  rw [report?_eq]
  cases x.move.isTick <;> rfl

/-- What a moment can do to a timer into which the bytes `stored?` go. -/
inductive TimerChange (timer : Machine size → Timer) (stored? : Moment size σ → Option UInt8)
    (x : Moment size σ) : Prop where
  | stored {b : UInt8} (hb : stored? x = some b) (ht : x.move.isTick = false)
      (ha : timer x.after.machine = ⟨b⟩)
  | ticked (hb : stored? x = none) (ht : x.move.isTick = true)
      (ha : timer x.after.machine = (timer x.before.machine).next)
  | kept (hb : stored? x = none) (ht : x.move.isTick = false)
      (ha : timer x.after.machine = timer x.before.machine)

section Change

variable {timer : Machine size → Timer} {stored? : Moment size σ → Option UInt8}
  {x : Moment size σ}

/-- A move that is no tick and stores nothing leaves a timer alone. -/
theorem TimerChange.eq_of_none (h : x.TimerChange timer stored?) (ht : x.move.isTick = false)
    (hb : stored? x = none) : timer x.after.machine = timer x.before.machine := by
  cases h with
  | stored hb' _ _ =>
    rw [hb] at hb'
    cases hb'
  | ticked _ ht' _ =>
    rw [ht] at ht'
    cases ht'
  | kept _ _ ha => exact ha

theorem TimerChange.eq_of_some (h : x.TimerChange timer stored?) {b : UInt8}
    (hb : stored? x = some b) : timer x.after.machine = ⟨b⟩ := by
  cases h with
  | stored hb' _ ha =>
    rw [hb] at hb'
    cases hb'
    exact ha
  | ticked hb' _ _ | kept hb' _ _ =>
    rw [hb] at hb'
    cases hb'

end Change

theorem delay_change (x : Moment size σ) : x.TimerChange Machine.delay delayStored? := by
  have hd : x.delayStored? = match x.executed? with
    | some (.setDelay r) => some (x.before.machine.v r)
    | _ => none := rfl
  have ht := x.isTick_eq
  cases x.effect with
  | keyStored hi hr hm =>
    rw [hi] at hd
    rw [hr] at ht
    exact .kept hd ht (by rw [hm]; rfl)
  | still hi hr hm =>
    rw [hi] at hd
    rw [hr] at ht
    exact .kept hd ht (by rw [hm])
  | ticked hi hr hm =>
    rw [hi] at hd
    rw [hr] at ht
    exact .ticked hd ht (by rw [hm]; rfl)
  | @executed _ i hi hr _ _ hm =>
    rw [hi] at hd
    rw [hr] at ht
    have ha := x.before.machine.delay_perform x.before.host i
    rw [← hm] at ha
    cases i with
    | setDelay r => exact .stored hd ht ha
    | _ => exact .kept hd ht ha

theorem sound_change (x : Moment size σ) : x.TimerChange Machine.sound soundStored? := by
  have ht := x.isTick_eq
  rcases x.sound_after with ⟨b, hb, hr, ha⟩ | ⟨hb, hr, ha⟩ | ⟨hb, hr, ha⟩
  · exact .stored hb (by rw [ht, hr]; rfl) ha
  · exact .ticked hb (by rw [ht, hr]; rfl) ha
  · exact .kept hb (by rw [ht, hr]; rfl) ha

end Moment

/-! ## The last store and the ticks since -/

section Since

variable (stored? : Moment size σ → Option UInt8) (xs : List (Moment size σ)) (x : Moment size σ)

def ticks : Nat := xs.countP fun x => x.move.isTick

/-- The byte stored last, or 60 if none was. -/
def lastStored : UInt8 := (xs.filterMap stored?).getLastD 60

/-- How many ticks there were since then. -/
def ticksSince : Nat := ticks (xs.reverse.takeWhile fun x => (stored? x).isNone)

omit [Host σ] in
theorem ticks_cons : ticks (x :: xs) = ticks xs + if x.move.isTick then 1 else 0 :=
  List.countP_cons

variable {stored? x}

omit [Host σ] in
theorem since_snoc_of_some {b : UInt8} (hb : stored? x = some b) :
    lastStored stored? (xs ++ [x]) = b ∧ ticksSince stored? (xs ++ [x]) = 0 := by
  constructor
  · rw [lastStored, List.filterMap_append, List.filterMap_cons_some hb, List.filterMap_nil,
      List.getLastD_concat]
  · rw [ticksSince, List.reverse_concat, List.takeWhile_cons_of_neg (by rw [hb]; nofun)]
    rfl

omit [Host σ] in
theorem since_snoc_of_none (hb : stored? x = none) :
    lastStored stored? (xs ++ [x]) = lastStored stored? xs
      ∧ ticksSince stored? (xs ++ [x])
        = ticksSince stored? xs + if x.move.isTick then 1 else 0 := by
  constructor
  · rw [lastStored, List.filterMap_append, List.filterMap_cons_none hb, List.filterMap_nil,
      List.append_nil, lastStored]
  · rw [ticksSince, List.reverse_concat, List.takeWhile_cons_of_pos (by rw [hb]; rfl), ticks_cons]
    rfl

omit [Host σ] in
/-- Where nothing was stored, all ticks count. -/
theorem since_of_none (h : ∀ x ∈ xs, stored? x = none) :
    lastStored stored? xs = 60 ∧ ticksSince stored? xs = ticks xs := by
  constructor
  · rw [lastStored, List.filterMap_eq_nil_iff.mpr h]
    rfl
  · have hall : ∀ x ∈ xs.reverse, (stored? x).isNone = true := by
      intro x hx
      rw [h x (List.mem_reverse.mp hx)]
      rfl
    rw [ticksSince, ← List.append_nil xs.reverse, List.takeWhile_append_of_pos hall,
      List.takeWhile_nil, List.append_nil, ticks, List.countP_reverse, ticks]

omit [Host σ] in
/-- Otherwise those that came after the last store. -/
theorem since_of_last {b : UInt8} (hb : stored? x = some b) {ys : List (Moment size σ)}
    (h : ∀ y ∈ ys, stored? y = none) :
    lastStored stored? (xs ++ x :: ys) = b ∧ ticksSince stored? (xs ++ x :: ys) = ticks ys := by
  constructor
  · rw [lastStored, List.filterMap_append, List.filterMap_cons_some hb,
      List.filterMap_eq_nil_iff.mpr h, List.getLastD_concat]
  · have hall : ∀ y ∈ ys.reverse, (stored? y).isNone = true := by
      intro y hy
      rw [h y (List.mem_reverse.mp hy)]
      rfl
    rw [ticksSince, List.reverse_append, List.reverse_cons, List.append_assoc,
      List.takeWhile_append_of_pos hall, List.singleton_append,
      List.takeWhile_cons_of_neg (by rw [hb]; nofun), List.append_nil, ticks, List.countP_reverse,
      ticks]

end Since

/-- **A timer is what was stored last, less the ticks since.** -/
theorem History.timer_eq {timer : Machine size → Timer} {stored? : Moment size σ → Option UInt8}
    (hc : ∀ x : Moment size σ, x.TimerChange timer stored?) {s t : Session size σ}
    {xs : List (Moment size σ)} (h : History s xs t) (hs : timer s.machine = ⟨60⟩) :
    (timer t.machine).value.toNat = (lastStored stored? xs).toNat - ticksSince stored? xs := by
  refine h.induct (P := fun xs t =>
    (timer t.machine).value.toNat = (lastStored stored? xs).toNat - ticksSince stored? xs)
    (fun xs t mv ih => ?_) ?_
  · have hm : t.after mv = (Moment.mk t mv).after := rfl
    rw [hm]
    cases hc ⟨t, mv⟩ with
    | stored hb _ ha =>
      obtain ⟨h1, h2⟩ := since_snoc_of_some xs hb
      rw [h1, h2, ha]
      rfl
    | ticked hb ht ha =>
      obtain ⟨h1, h2⟩ := since_snoc_of_none xs hb
      rw [h1, h2, ha, Timer.toNat_next, ih, if_pos ht]
      omega
    | kept hb ht ha =>
      obtain ⟨h1, h2⟩ := since_snoc_of_none xs hb
      rw [h1, h2, ha, ih, ht]
      rfl
  · rw [hs]
    rfl

/-! ## Reports between two stores -/

/-- As long as nothing is stored, the reports are those of the timer as it was. -/
theorem History.reports_eq {s t : Session size σ} {ys : List (Moment size σ)} (h : History s ys t)
    (hn : ∀ y ∈ ys, y.soundStored? = none) :
    ys.filterMap Moment.report? = s.machine.sound.reports (ticks ys) := by
  induction h with
  | nil => rfl
  | @cons s t ys mv _ ih =>
    obtain ⟨hx, hys⟩ := List.forall_mem_cons.mp hn
    have hr := (Moment.mk s mv).report?_eq
    replace ih : ys.filterMap Moment.report?
        = (Moment.mk s mv).after.machine.sound.reports (ticks ys) := ih hys
    rw [ticks_cons]
    cases (Moment.mk s mv).sound_change with
    | stored hb _ _ =>
      rw [hx] at hb
      cases hb
    | ticked _ ht ha =>
      rw [ht] at hr
      rw [List.filterMap_cons_some hr, ht, ih, ha]
      rfl
    | kept _ ht ha =>
      rw [ht] at hr
      rw [List.filterMap_cons_none hr, ht, ih, ha]
      rfl

theorem History.reports_prefix {s t : Session size σ} {ys : List (Moment size σ)}
    (h : History s ys t) (hn : ∀ y ∈ ys, y.soundStored? = none) :
    ys.filterMap Moment.report?
      <+: s.machine.sound.course ++ List.replicate (ticks ys) .off := by
  rw [h.reports_eq hn]
  exact s.machine.sound.reports_prefix (ticks ys)

/-! ## The law -/

/-- How the timers stand after `xs`. -/
structure TimersAfter (xs : List (Moment size σ)) (m : Machine size) : Prop where
  delay_eq : m.delay.value.toNat
    = (lastStored Moment.delayStored? xs).toNat - ticksSince Moment.delayStored? xs
  sound_eq : m.sound.value.toNat
    = (lastStored Moment.soundStored? xs).toNat - ticksSince Moment.soundStored? xs

theorem History.timersAfter {program : Array UInt8} {s t : Session size σ}
    {xs : List (Moment size σ)} (h : History s xs t)
    (hm : Machine.load size program = .ok s.machine) : TimersAfter xs t.machine := by
  have he := (Machine.load_eq_ok_iff.mp hm).2
  exact ⟨h.timer_eq Moment.delay_change (by rw [he]; rfl),
    h.timer_eq Moment.sound_change (by rw [he]; rfl)⟩

/-- The instruction that reads the delay timer puts it into its register. -/
theorem Moment.v_of_getDelay {x : Moment size σ} {r : Register}
    (hx : x.executed? = some (.getDelay r)) :
    x.after.machine.v r = x.before.machine.delay.value := by
  rw [machine_of_executed hx]
  exact Vector.getElem_set_self _

/--
**Both timers follow from the stores and the ticks, and the reports from the timers.**

After a load and any requests each timer is the byte that was last stored into it, less
the ticks since then; it is 60 less all ticks as long as nothing was stored. This holds
before each single move as well. There, an instruction that reads the delay timer gets
that number, a move that is no tick and stores nothing leaves the timer alone, and a
tick reports whether the sound timer was at rest, ran out, or goes on. So the reports
after a load, and those after a store, go through the course of one timer and stay
`off` at its end, until the next store.
-/
theorem timers_follow_history {program : Array UInt8} {s : Session size σ}
    (hm : Machine.load size program = .ok s.machine) (rs : List (Request σ)) :
    TimersAfter (s.trail rs) (s.requests rs).machine
      ∧ (∀ xs x ys, s.trail rs = xs ++ x :: ys →
          TimersAfter xs x.before.machine
            ∧ (∀ r, x.executed? = some (.getDelay r) →
                (x.after.machine.v r).toNat = (lastStored Moment.delayStored? xs).toNat
                  - ticksSince Moment.delayStored? xs)
            ∧ (x.move.isTick = false → x.delayStored? = none →
                x.after.machine.delay = x.before.machine.delay)
            ∧ (x.move.isTick = false → x.soundStored? = none →
                x.after.machine.sound = x.before.machine.sound)
            ∧ (x.move.isTick = true → ∀ n, n = (lastStored Moment.soundStored? xs).toNat
                  - ticksSince Moment.soundStored? xs →
                x.report? = some (if n = 0 then .off else if n = 1 then .finished else .on)))
      ∧ (∀ ys zs, s.trail rs = ys ++ zs → (∀ y ∈ ys, y.soundStored? = none) →
          ys.filterMap Moment.report? <+: Timer.course ⟨60⟩ ++ List.replicate (ticks ys) .off)
      ∧ ∀ xs x ys zs b, s.trail rs = xs ++ x :: (ys ++ zs) → x.soundStored? = some b →
          (∀ y ∈ ys, y.soundStored? = none) →
          ys.filterMap Moment.report? <+: Timer.course ⟨b⟩ ++ List.replicate (ticks ys) .off := by
  have hh := history_trail s rs
  refine ⟨hh.timersAfter hm, ?_, ?_, ?_⟩
  · intro xs x ys ht
    have hb : TimersAfter xs x.before.machine := (history_of_trail ht).timersAfter hm
    refine ⟨hb, fun r hr => ?_, fun ht' hn => ?_, fun ht' hn => ?_, fun ht' n hn => ?_⟩
    · rw [Moment.v_of_getDelay hr, hb.delay_eq]
    · exact x.delay_change.eq_of_none ht' hn
    · exact x.sound_change.eq_of_none ht' hn
    · rw [x.report?_eq, ht', if_pos rfl, Timer.report_eq, hb.sound_eq, ← hn]
  · intro ys zs ht hn
    rw [ht] at hh
    obtain ⟨t, h, -⟩ := hh.of_append
    have hs : s.machine.sound = ⟨60⟩ := by rw [(Machine.load_eq_ok_iff.mp hm).2]; rfl
    rw [← hs]
    exact h.reports_prefix hn
  · intro xs x ys zs b ht hb hn
    rw [ht] at hh
    obtain ⟨t, -, h⟩ := hh.of_append
    cases h with
    | cons mv h =>
      obtain ⟨u, h, -⟩ := h.of_append
      have hs := (Moment.mk t mv).sound_change.eq_of_some hb
      rw [← hs]
      exact h.reports_prefix hn

/-- A program that makes a sound of two ticks. The third tick finds it over, and has taken three off
the delay timer. -/
theorem timers_follow_history_short_sound :
    ∃ s t : Session 4096 Headless, Machine.load 4096 #[0x60, 0x02, 0xF0, 0x18] = .ok s.machine
      ∧ t = ((s.after .step).after .step).requests [.move .tick, .move .tick, .move .tick]
      ∧ t.machine.delay.value.toNat = 57
      ∧ t.machine.sound.value.toNat = 0
      ∧ (((s.after .step).after .step).trail [.move .tick, .move .tick, .move .tick]).filterMap
          Moment.report? = [.on, .finished, .off] := by
  have hd : Layout.displayStart 4096 = 3840 := Layout.displayStart_eq _
  obtain ⟨s, hm, h0⟩ := Session.exists_atWord 4096 #[0x60, 0x02, 0xF0, 0x18] Headless.mk (by decide)
  obtain ⟨e0, a0, h1⟩ :=
    Session.step_of_isStraight (i := .set 0 2) h0 (by omega) (by decide) rfl rfl
  obtain ⟨e1, -⟩ := Session.step_of_atWord (i := .setSound 0) h1 (by omega) (by decide) rfl rfl
  obtain ⟨x, hx⟩ : ∃ x : Moment 4096 Headless, x = ⟨s, .step⟩ := ⟨_, rfl⟩
  obtain ⟨y, hy⟩ : ∃ y : Moment 4096 Headless, y = ⟨s.after .step, .step⟩ := ⟨_, rfl⟩
  obtain ⟨zs, hzs⟩ : ∃ zs, zs = ((s.after .step).after .step).trail
    [.move .tick, .move .tick, .move .tick] := ⟨_, rfl⟩
  have hticks : ticks zs = 3 := by rw [hzs]; rfl
  have hz : ∀ z ∈ zs, z.executed? = none := by
    rw [hzs]
    exact List.forall_mem_cons.mpr ⟨rfl, List.forall_mem_cons.mpr ⟨rfl,
      List.forall_mem_singleton.mpr rfl⟩⟩
  have hx' : x.executed? = some (.set 0 2) := by rw [hx, Moment.executed?, e0]; rfl
  have hy' : y.executed? = some (.setSound 0) := by rw [hy, Moment.executed?, e1]; rfl
  have ht : s.trail [.move .step, .move .step, .move .tick, .move .tick, .move .tick]
      = [x] ++ y :: (zs ++ []) := by
    rw [hx, hy, hzs]
    rfl
  obtain ⟨⟨hdelay, hsound⟩, -, -, hreports⟩ := timers_follow_history hm
    [.move .step, .move .step, .move .tick, .move .tick, .move .tick]
  -- two is stored into the sound timer, and nothing into the delay timer
  have hb : y.soundStored? = some 2 := by
    have hv : y.before.machine.v 0 = 2 := by
      rw [hy, a0]
      exact Vector.getElem_set_self _
    rw [Moment.soundStored?, hy', ← hv]
  have hzb : ∀ z ∈ zs, z.soundStored? = none := by
    intro z h
    rw [Moment.soundStored?, hz z h]
  have hxyz : ∀ z ∈ x :: y :: zs, z.delayStored? = none := by
    refine List.forall_mem_cons.mpr ⟨?_, List.forall_mem_cons.mpr ⟨?_, fun z h => ?_⟩⟩
    · rw [Moment.delayStored?, hx']
    · rw [Moment.delayStored?, hy']
    · rw [Moment.delayStored?, hz z h]
  refine ⟨s, _, hm, rfl, ?_, ?_, ?_⟩
  · obtain ⟨h1, h2⟩ := since_of_none _ hxyz
    rw [ht, List.append_nil] at hdelay
    refine hdelay.trans ?_
    show (lastStored Moment.delayStored? (x :: y :: zs)).toNat
      - ticksSince Moment.delayStored? (x :: y :: zs) = 57
    rw [h1, h2, ticks_cons, ticks_cons, hticks, hx, hy]
    rfl
  · obtain ⟨h1, h2⟩ := since_of_last [x] hb hzb
    rw [ht, List.append_nil, h1, h2, hticks] at hsound
    exact hsound
  · have hp := hreports [x] y zs [] 2 ht hb hzb
    rw [hticks] at hp
    have hlen : (zs.filterMap Moment.report?).length = 3 := by rw [hzs]; rfl
    rw [← hzs, List.prefix_iff_eq_take.mp hp, hlen]
    rfl

end ChipEight
