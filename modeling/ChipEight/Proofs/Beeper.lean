import ChipEight.Proofs.Loading

/-!
# A beeper that follows the sound timer

A host that wants to be heard holds one flag. It sets the flag when a tick reports
`on`, clears it when a tick reports `finished`, and otherwise leaves it.

That follows the sound timer as long as the timer runs out by itself. A program
can also stop it, by storing zero. Then no tick ever reports `finished`: the next
one finds the timer at zero and reports `off`, and a beeper that was on stays on
until the program makes another sound. `Silenced` describes such a history, and
`beeper_follows_sound` says that it is the only way to go wrong.
-/

namespace ChipEight

variable {size : Nat} {σ : Type}

/-- A tick reports whether the timer still runs after it, and if not, whether it just stopped. -/
theorem Timer.report_next (t : Timer) :
    (t.report = .on ∧ t.value ≠ 0 ∧ 0 < t.next.value)
      ∨ (t.report = .finished ∧ t.value ≠ 0 ∧ t.next.value = 0)
      ∨ (t.report = .off ∧ t.value = 0 ∧ t.next.value = 0) := by
  have hn := t.toNat_next
  unfold report
  by_cases h0 : t.value = 0
  · refine .inr (.inr ⟨if_pos h0, h0, ?_⟩)
    rw [next, if_pos h0, h0]
  · rw [if_neg h0]
    by_cases h1 : t.value = 1
    · refine .inr (.inl ⟨if_pos h1, h0, UInt8.toNat_inj.mp ?_⟩)
      rw [hn, h1]
      rfl
    · refine .inl ⟨if_neg h1, h0, UInt8.lt_iff_toNat_lt.mpr ?_⟩
      have h0' : t.value.toNat ≠ 0 := fun h => h0 (UInt8.toNat_inj.mp h)
      have h1' : t.value.toNat ≠ 1 := fun h => h1 (UInt8.toNat_inj.mp h)
      rw [hn, UInt8.toNat_zero]
      omega

/-! ## The flag -/

/-- What a host makes of a report, if its flag was `on`. -/
def Tick.gate (on : Bool) : Tick → Bool
  | .on => true
  | .finished => false
  | .off => on

/-- What becomes of the flag in a moment. -/
def Moment.gate (on : Bool) (x : Moment size σ) : Bool :=
  match x.report? with
  | some t => t.gate on
  | none => on

/-- The flag after some moments. It starts cleared. -/
def beeper (xs : List (Moment size σ)) : Bool := xs.foldl Moment.gate false

section Snoc

variable {xs : List (Moment size σ)} {x : Moment size σ}

theorem beeper_snoc_of_none (hr : x.report? = none) : beeper (xs ++ [x]) = beeper xs := by
  rw [beeper, List.foldl_append, List.foldl_cons, List.foldl_nil, Moment.gate, hr]
  rfl

theorem beeper_snoc_of_report {t : Tick} (hr : x.report? = some t) :
    beeper (xs ++ [x]) = t.gate (beeper xs) := by
  rw [beeper, List.foldl_append, List.foldl_cons, List.foldl_nil, Moment.gate, hr]
  rfl

end Snoc

/-! ## Stores -/

variable [Host σ]

namespace Moment

/-- The byte that goes into the sound timer, if the move is a step that stores one there. -/
def soundStored? (x : Moment size σ) : Option UInt8 :=
  match x.executed? with
  | some (.setSound r) => some (x.before.machine.v r)
  | _ => none

/-- **The sound timer changes by stores and by ticks.** -/
theorem sound_after (x : Moment size σ) :
    (∃ b, x.soundStored? = some b ∧ x.report? = none ∧ x.after.machine.sound = ⟨b⟩)
      ∨ (x.soundStored? = none ∧ x.report? = some x.before.machine.sound.report
          ∧ x.after.machine.sound = x.before.machine.sound.next)
      ∨ (x.soundStored? = none ∧ x.report? = none
          ∧ x.after.machine.sound = x.before.machine.sound) := by
  unfold soundStored?
  cases x.effect with
  | keyStored hi hr hm | still hi hr hm =>
    rw [hi, hm]
    exact .inr (.inr ⟨rfl, hr, rfl⟩)
  | ticked hi hr hm =>
    rw [hi, hm]
    exact .inr (.inl ⟨rfl, hr, rfl⟩)
  | @executed _ i hi hr _ _ hm =>
    rw [hi, hm, Machine.sound_perform]
    cases i with
    | setSound r => exact .inl ⟨_, rfl, hr, rfl⟩
    | _ => exact .inr (.inr ⟨rfl, hr, rfl⟩)

end Moment

/-- The last byte stored into the sound timer is a zero, and came while the beeper was on. -/
def Silenced (xs : List (Moment size σ)) : Prop :=
  ∃ pre x post, xs = pre ++ x :: post ∧ x.soundStored? = some 0 ∧ beeper pre = true
    ∧ ∀ y ∈ post, y.soundStored? = none

section Snoc

variable {xs : List (Moment size σ)} {x : Moment size σ}

/-- A store settles by itself whether it silences. -/
theorem silenced_snoc_of_some {b : UInt8} (hb : x.soundStored? = some b) :
    Silenced (xs ++ [x]) ↔ b = 0 ∧ beeper xs = true := by
  constructor
  · rintro ⟨pre, y, post, he, hy, hp, hn⟩
    rcases eq_or_eq_of_snoc he with ⟨rfl, rfl, rfl⟩ | ⟨ws, rfl, rfl⟩
    · rw [hb] at hy
      exact ⟨Option.some.inj hy, hp⟩
    · -- `x` would be among the moments that store nothing
      have hx := hn x (List.mem_append_right _ List.mem_cons_self)
      rw [hb] at hx
      cases hx
  · rintro ⟨rfl, hp⟩
    exact ⟨xs, x, [], rfl, hb, hp, nofun⟩

theorem silenced_snoc_of_none (hx : x.soundStored? = none) :
    Silenced (xs ++ [x]) ↔ Silenced xs := by
  constructor
  · rintro ⟨pre, y, post, he, hy, hp, hn⟩
    rcases eq_or_eq_of_snoc he with ⟨rfl, rfl, rfl⟩ | ⟨ws, rfl, rfl⟩
    · rw [hx] at hy
      cases hy
    · exact ⟨pre, y, ws, rfl, hy, hp, fun w hw => hn w (List.mem_append_left _ hw)⟩
  · rintro ⟨pre, y, post, rfl, hy, hp, hn⟩
    refine ⟨pre, y, post ++ [x], by rw [List.append_assoc, List.cons_append], hy, hp, ?_⟩
    intro w hw
    rcases List.mem_append.mp hw with h | h
    · exact hn w h
    · rw [List.mem_singleton.mp h, hx]

end Snoc

/-! ## Flag and timer -/

/-- How the flag and the sound timer stand to each other, at any time. -/
structure Tuned (xs : List (Moment size σ)) (s : Session size σ) : Prop where
  /-- Once silenced, the beeper is on and there is nothing to run out. -/
  stuck : Silenced xs → beeper xs = true ∧ s.machine.sound.value = 0
  /-- Otherwise a beeper that is on has a sound to follow. -/
  follows : ¬ Silenced xs → beeper xs = true → 0 < s.machine.sound.value

/-- Before anything happened the beeper is off. -/
theorem tuned_nil (s : Session size σ) : Tuned [] s where
  stuck := by
    rintro ⟨pre, x, post, h, _⟩
    exact absurd h.symm (List.append_ne_nil_of_right_ne_nil _ (List.cons_ne_nil _ _))
  follows := nofun

/-- A tick keeps them so, and after it no sound goes unheard. -/
theorem tuned_snoc_of_report {xs : List (Moment size σ)} {x : Moment size σ}
    (h : Tuned xs x.before) (hb : x.soundStored? = none)
    (hr : x.report? = some x.before.machine.sound.report)
    (hs : x.after.machine.sound = x.before.machine.sound.next) :
    Tuned (xs ++ [x]) x.after
      ∧ (0 < x.after.machine.sound.value → beeper (xs ++ [x]) = true) := by
  have hsil : Silenced (xs ++ [x]) ↔ Silenced xs := silenced_snoc_of_none hb
  have hg : beeper (xs ++ [x]) = x.before.machine.sound.report.gate (beeper xs) :=
    beeper_snoc_of_report hr
  rcases x.before.machine.sound.report_next with ⟨ht, h0, hn⟩ | ⟨ht, h0, hn⟩ | ⟨ht, h0, hn⟩
  · rw [ht, Tick.gate] at hg
    rw [← hs] at hn
    exact ⟨⟨fun hq => absurd (h.stuck (hsil.mp hq)).2 h0, fun _ _ => hn⟩, fun _ => hg⟩
  · rw [ht, Tick.gate] at hg
    rw [← hs] at hn
    refine ⟨⟨fun hq => absurd (h.stuck (hsil.mp hq)).2 h0, fun _ hp => ?_⟩, fun hp => ?_⟩
    · rw [hg] at hp
      cases hp
    · rw [hn] at hp
      exact absurd hp (by decide)
  · -- the timer was at rest, so only a silenced beeper can have been on
    rw [ht, Tick.gate] at hg
    rw [← hs] at hn
    refine ⟨⟨fun hq => ⟨?_, hn⟩, fun hq hp => ?_⟩, fun hp => ?_⟩
    · rw [hg]
      exact (h.stuck (hsil.mp hq)).1
    · rw [hg] at hp
      have := h.follows (fun hq' => hq (hsil.mpr hq')) hp
      rw [h0] at this
      exact absurd this (by decide)
    · rw [hn] at hp
      exact absurd hp (by decide)

/-- **Every move keeps flag and timer tuned.** -/
theorem tuned_snoc {xs : List (Moment size σ)} (x : Moment size σ) (h : Tuned xs x.before) :
    Tuned (xs ++ [x]) x.after := by
  rcases x.sound_after with ⟨b, hb, hr, hs⟩ | ⟨hb, hr, hs⟩ | ⟨hb, hr, hs⟩
  · -- a store leaves the flag as it was, and only a zero can leave it stuck
    have hsil : Silenced (xs ++ [x]) ↔ b = 0 ∧ beeper xs = true := silenced_snoc_of_some hb
    have hg : beeper (xs ++ [x]) = beeper xs := beeper_snoc_of_none hr
    constructor
    · intro hq
      obtain ⟨rfl, hp⟩ := hsil.mp hq
      rw [hg, hs]
      exact ⟨hp, rfl⟩
    · intro hq hp
      rw [hg] at hp
      rw [hs]
      exact UInt8.pos_iff_ne_zero.mpr fun h0 => hq (hsil.mpr ⟨h0, hp⟩)
  · exact (tuned_snoc_of_report h hb hr hs).1
  · -- anything else leaves both alone
    have hsil : Silenced (xs ++ [x]) ↔ Silenced xs := silenced_snoc_of_none hb
    have hg : beeper (xs ++ [x]) = beeper xs := beeper_snoc_of_none hr
    constructor
    · intro hq
      rw [hg, hs]
      exact h.stuck (hsil.mp hq)
    · intro hq hp
      rw [hg] at hp
      rw [hs]
      exact h.follows (fun hq' => hq (hsil.mpr hq')) hp

theorem History.tuned {s t : Session size σ} {xs : List (Moment size σ)} (h : History s xs t) :
    Tuned xs t :=
  h.induct (fun _ _ _ hx => tuned_snoc _ hx) (tuned_nil s)

/--
**Right after a tick the beeper is on exactly when there is sound, unless it was
silenced.**

`xs` is everything that happened before the tick `x`, each step of a run by itself.
If the last store into the sound timer came while the beeper was on and was of
zero, the beeper is still on and there is no sound. In every other case flag and
timer agree.
-/
theorem beeper_follows_sound (s : Session size σ) (rs : List (Request σ))
    (xs : List (Moment size σ)) (x : Moment size σ) (ys : List (Moment size σ))
    (ht : s.trail rs = xs ++ x :: ys) (hx : x.move = .tick) :
    (Silenced xs → beeper (xs ++ [x]) = true ∧ x.after.machine.sound.value = 0)
      ∧ (¬ Silenced xs → (beeper (xs ++ [x]) = true ↔ 0 < x.after.machine.sound.value)) := by
  have hb : Tuned xs x.before := (history_of_trail ht).tuned
  rcases x.sound_after with ⟨b, _, hr, _⟩ | ⟨hn, hr, hs⟩ | ⟨_, hr, _⟩
  · rw [Moment.report?, hx] at hr
    cases hr
  · have hsil : Silenced (xs ++ [x]) ↔ Silenced xs := silenced_snoc_of_none hn
    obtain ⟨hafter, hheard⟩ := tuned_snoc_of_report hb hn hr hs
    refine ⟨fun hq => hafter.stuck (hsil.mpr hq), fun hq => ⟨fun hp => ?_, hheard⟩⟩
    exact hafter.follows (fun hq' => hq (hsil.mp hq')) hp
  · rw [Moment.report?, hx] at hr
    cases hr

/-- Two ticks after a load the beeper is on, and the timer has not run out. -/
theorem beeper_follows_sound_after_load :
    ∃ s : Session 4096 Headless, Machine.load 4096 #[] = .ok s.machine
      ∧ beeper (s.trail [.move .tick, .move .tick]) = true
      ∧ 0 < (s.requests [.move .tick, .move .tick]).machine.sound.value := by
  let s : Session 4096 Headless := ⟨.fresh 4096 #[], ⟨⟩⟩
  have hq : ¬ Silenced [(⟨s, .tick⟩ : Moment 4096 Headless)] := by
    rintro ⟨pre, x, post, he, hx, _⟩
    have hmem : x ∈ [(⟨s, .tick⟩ : Moment 4096 Headless)] := by
      rw [he]; exact List.mem_append_right _ List.mem_cons_self
    rw [List.mem_singleton.mp hmem] at hx
    cases hx
  have h0 : 0 < (s.requests [.move .tick, .move .tick]).machine.sound.value := by decide
  have hb := (beeper_follows_sound s [.move .tick, .move .tick] [⟨s, .tick⟩]
    ⟨s.after .tick, .tick⟩ [] rfl rfl).2 hq
  exact ⟨s, Machine.load_eq_ok_iff.mpr ⟨by decide, rfl⟩, hb.mpr h0, h0⟩

/-- A program that stores zero into the sound timer leaves the beeper on, with no sound. -/
theorem beeper_stays_on_without_sound :
    ∃ s : Session 4096 Headless, Machine.load 4096 #[0x60, 0x00, 0xF0, 0x18] = .ok s.machine
      ∧ beeper (s.trail [.move .tick, .move .step, .move .step, .move .tick]) = true
      ∧ (s.requests [.move .tick, .move .step, .move .step, .move .tick]).machine.sound.value
          = 0 := by
  obtain ⟨p, hp⟩ : ∃ p : Array UInt8, p = #[0x60, 0x00, 0xF0, 0x18] := ⟨_, rfl⟩
  have hd : 512 + (2 * 1 + 1) < Layout.displayStart 4096 := by
    rw [Layout.displayStart_eq]; decide
  have hset : Instruction.decode (wordAt p 0) = .ok (.set 0 0) := by rw [hp]; rfl
  have hstore : Instruction.decode (wordAt p 1) = .ok (.setSound 0) := by rw [hp]; rfl
  obtain ⟨s, hs⟩ : ∃ s : Session 4096 Headless, s = ⟨.fresh 4096 p, ⟨⟩⟩ := ⟨_, rfl⟩
  have h1 : (s.after .tick).after .step
      = ⟨((Machine.fresh 4096 p).tick.perform Headless.mk (.set 0 0)).1, ⟨⟩⟩ := by
    rw [hs]
    exact (Session.step_of_next rfl (Machine.next_of_low rfl rfl (by omega) hset) rfl).2
  have h2 : ((s.after .tick).after .step).step.event = .executed (wordAt p 1) (.setSound 0) := by
    rw [h1]
    exact (Session.step_of_next rfl (Machine.next_of_low rfl rfl hd hstore) rfl).1
  have hx : (Moment.mk ((s.after .tick).after .step) .step).soundStored? = some 0 := by
    have he : (Moment.mk ((s.after .tick).after .step) .step).executed? = some (.setSound 0) := by
      rw [Moment.executed?, h2]
      rfl
    rw [Moment.soundStored?, he, h1]
    rfl
  have hq : Silenced (s.trail [.move .tick, .move .step, .move .step, .move .tick]) := by
    refine ⟨[⟨s, .tick⟩, ⟨s.after .tick, .step⟩], _, [⟨_, .tick⟩], rfl, hx, ?_, ?_⟩
    · rw [hs]; rfl
    · intro y hy
      rw [List.mem_singleton.mp hy]
      rfl
  obtain ⟨hon, h0⟩ := (history_trail s _).tuned.stuck hq
  exact ⟨s, Machine.load_eq_ok_iff.mpr ⟨by decide, by rw [hs, hp]⟩, hon, h0⟩

end ChipEight
