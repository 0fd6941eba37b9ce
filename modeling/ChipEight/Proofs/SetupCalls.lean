import ChipEight.Proofs.ExactLoad

/-!
# Calls that set a machine up

A `Setup` is what one call after the other has left of it. Which calls there were, how many of a
kind and in which order, cannot be seen from it any more, and what a machine is built from should
depend on no more than the last call of each kind.

`LastOf cs c` says of a list of calls which one that is, and `provides_calls_iff` says that it is
what the setup ends with. `Builds` lists what can come of the calls, with the reasons for
it in the order in which they count: a program that is too large is not looked at while
anything is missing, and not if another program has come after it.
-/

namespace ChipEight.Setup

variable {size : Nat} {σ : Type}

/-- A call that provides something. -/
inductive Call (σ : Type) where
  | host (h : σ)
  | program (p : Array UInt8)

/-- Whether one call replaces what the other provides. -/
def Call.SameKind : Call σ → Call σ → Prop
  | .host _, .host _ => True
  | .program _, .program _ => True
  | _, _ => False

theorem Call.SameKind.refl (c : Call σ) : c.SameKind c := by
  cases c <;> trivial

theorem Call.SameKind.trans {c d e : Call σ} (h : c.SameKind d) (h' : d.SameKind e) :
    c.SameKind e := by
  cases c <;> cases d <;> cases e <;> trivial

/-- The setup after a call. -/
def call (s : Setup σ) : Call σ → Setup σ
  | .host h => s.withHost h
  | .program p => s.withProgram p

/-- The setup after a list of calls. -/
def calls (s : Setup σ) (cs : List (Call σ)) : Setup σ := cs.foldl call s

/-- Whether what a call provides is what the setup holds. -/
def Provides (s : Setup σ) : Call σ → Prop
  | .host h => s.host = some h
  | .program p => s.program = some p

/-- The call is among the calls, and none of its kind comes later. -/
def LastOf (cs : List (Call σ)) (c : Call σ) : Prop :=
  ∃ earlier later, cs = earlier ++ c :: later ∧ ∀ d ∈ later, ¬ d.SameKind c

/-- What can come of calls, and why. -/
inductive Builds (size : Nat) (cs : List (Call σ)) : Except Error (Machine size × σ) → Prop where
  /-- No call has provided a host, whatever else was provided. -/
  | missingHost (h : ∀ g, .host g ∉ cs) : Builds size cs (.error .missingHost)
  /-- There is a host, but no call has provided a program. -/
  | missingProgram {g : σ} (hg : .host g ∈ cs) (h : ∀ p, .program p ∉ cs) :
      Builds size cs (.error .missingProgram)
  /-- The last program is loaded, for the last host, or is refused. -/
  | load {g : σ} {p : Array UInt8} (hg : LastOf cs (.host g)) (hp : LastOf cs (.program p)) :
      Builds size cs ((Machine.load size p).map (·, g))

/-! ## The last call of a kind -/

theorem lastOf_cons {cs : List (Call σ)} {c d : Call σ} :
    LastOf (d :: cs) c ↔ LastOf cs c ∨ (d = c ∧ ∀ e ∈ cs, ¬ e.SameKind c) := by
  constructor
  · rintro ⟨earlier, later, he, hl⟩
    cases earlier with
    | nil =>
      obtain ⟨rfl, rfl⟩ := List.cons.inj he
      exact .inr ⟨rfl, hl⟩
    | cons e earlier => exact .inl ⟨earlier, later, (List.cons.inj he).2, hl⟩
  · rintro (⟨earlier, later, rfl, hl⟩ | ⟨rfl, hl⟩)
    · exact ⟨d :: earlier, later, rfl, hl⟩
    · exact ⟨[], cs, rfl, hl⟩

theorem LastOf.mem {cs : List (Call σ)} {c : Call σ} (h : LastOf cs c) : c ∈ cs := by
  obtain ⟨earlier, later, rfl, -⟩ := h
  exact List.mem_append_right _ List.mem_cons_self

theorem not_lastOf_nil (c : Call σ) : ¬ LastOf [] c := fun h => List.not_mem_nil h.mem

/-- Where there are calls of a kind, one of them is the last. -/
theorem exists_lastOf {cs : List (Call σ)} {c : Call σ} (h : c ∈ cs) :
    ∃ d, d.SameKind c ∧ LastOf cs d := by
  induction cs generalizing c with
  | nil => cases h
  | cons e cs ih =>
    by_cases hk : ∃ d ∈ cs, d.SameKind c
    · obtain ⟨d, hd, hdc⟩ := hk
      obtain ⟨f, hfd, hf⟩ := ih hd
      exact ⟨f, hfd.trans hdc, lastOf_cons.mpr (.inl hf)⟩
    · -- nothing of the kind comes after the first call, so this is the one
      rcases List.mem_cons.mp h with rfl | hc
      · exact ⟨c, .refl c, lastOf_cons.mpr (.inr ⟨rfl, fun d hd hdc => hk ⟨d, hd, hdc⟩⟩)⟩
      · exact absurd ⟨c, hc, .refl c⟩ hk

/-! ## What the calls leave -/

theorem provides_call_iff (s : Setup σ) (d c : Call σ) :
    (s.call d).Provides c ↔ d = c ∨ (s.Provides c ∧ ¬ d.SameKind c) := by
  cases d <;> cases c <;> simp [call, Provides, withHost, withProgram, Call.SameKind]

/-- **A setup holds what the last call of a kind has provided,** and what it held before where there
was none. -/
theorem provides_calls_iff (s : Setup σ) (cs : List (Call σ)) (c : Call σ) :
    (s.calls cs).Provides c ↔
      LastOf cs c ∨ (s.Provides c ∧ ∀ d ∈ cs, ¬ d.SameKind c) := by
  induction cs generalizing s with
  | nil =>
    simp [calls, not_lastOf_nil]
  | cons d cs ih =>
    rw [calls, List.foldl_cons, ← calls, ih, provides_call_iff, lastOf_cons, List.forall_mem_cons,
      or_and_right, and_assoc, or_assoc]

theorem provides_iff_lastOf (cs : List (Call σ)) (c : Call σ) :
    (empty.calls cs).Provides c ↔ LastOf cs c := by
  have hnone : ¬ (empty : Setup σ).Provides c := by
    cases c <;> intro h <;> cases h
  rw [provides_calls_iff]
  exact or_iff_left fun h => hnone h.1

/-- Where nothing of a kind is held, no call has provided it. -/
theorem not_mem_of_not_provides {cs : List (Call σ)} {c : Call σ}
    (h : ∀ d : Call σ, d.SameKind c → ¬ (empty.calls cs).Provides d) : c ∉ cs := by
  intro hc
  obtain ⟨d, hk, hd⟩ := exists_lastOf hc
  exact h d hk ((provides_iff_lastOf cs d).mpr hd)

/-! ## What comes of them -/

/-- What is built is one of the things that can come of the calls. -/
theorem builds_build (size : Nat) (cs : List (Call σ)) :
    Builds size cs ((empty.calls cs).build size) := by
  rw [build]
  cases hh : (empty.calls cs).host with
  | none =>
    refine .missingHost fun g => not_mem_of_not_provides fun d hk hd => ?_
    cases d with
    | host f =>
      rw [Provides, hh] at hd
      cases hd
    | program p => exact hk
  | some g =>
    have hg : LastOf cs (.host g) := (provides_iff_lastOf cs _).mp hh
    cases hp : (empty.calls cs).program with
    | none =>
      refine .missingProgram hg.mem fun p => not_mem_of_not_provides fun d hk hd => ?_
      cases d with
      | host f => exact hk
      | program q =>
        rw [Provides, hp] at hd
        cases hd
    | some p => exact .load hg ((provides_iff_lastOf cs _).mp hp)

/-- And it is the only one. -/
theorem Builds.build_eq {cs : List (Call σ)} {r : Except Error (Machine size × σ)}
    (h : Builds size cs r) : (empty.calls cs).build size = r := by
  cases h with
  | missingHost h =>
    cases hh : (empty.calls cs).host with
    | none => rw [build, hh]
    | some g => exact absurd ((provides_iff_lastOf cs (.host g)).mp hh).mem (h g)
  | missingProgram hg h =>
    obtain ⟨d, hk, hd⟩ := exists_lastOf hg
    cases d with
    | program p => exact hk.elim
    | host f =>
      have hh : (empty.calls cs).host = some f := (provides_iff_lastOf cs _).mpr hd
      cases hp : (empty.calls cs).program with
      | none => rw [build, hh, hp]
      | some p => exact absurd ((provides_iff_lastOf cs (.program p)).mp hp).mem (h p)
  | @load g p hg hp =>
    have hh : (empty.calls cs).host = some g := (provides_iff_lastOf cs _).mpr hg
    have hprogram : (empty.calls cs).program = some p := (provides_iff_lastOf cs _).mpr hp
    rw [build, hh, hprogram]

/-- Calls of which the same ones are last leave the same setup. -/
theorem calls_congr {cs cs' : List (Call σ)} (h : ∀ c, LastOf cs' c ↔ LastOf cs c) :
    (empty : Setup σ).calls cs' = empty.calls cs := by
  have hp : ∀ c, (empty.calls cs').Provides c ↔ (empty.calls cs).Provides c := by
    intro c
    rw [provides_iff_lastOf, provides_iff_lastOf, h]
  have hhost : (empty.calls cs').host = (empty.calls cs).host :=
    Option.ext fun g => hp (.host g)
  have hprogram : (empty.calls cs').program = (empty.calls cs).program :=
    Option.ext fun p => hp (.program p)
  cases hs : (empty : Setup σ).calls cs' with
  | mk g p =>
    rw [hs] at hhost hprogram
    rw [show g = _ from hhost, show p = _ from hprogram]

/--
**What is built depends on the last host and on the last program, and on nothing else.**

`Builds` is what the calls lead to: a missing host is reported before a missing program, and both
before a program that is too large. When nothing is missing, the result is that of loading the last
program, with the last host beside the machine. A program that was replaced does not matter, were
it too large or not. So calls in another order, or other calls with the same last ones, build the
same machine or report the same error.
-/
theorem build_decided_by_last_calls (size : Nat) (cs : List (Call σ)) :
    (∀ r, (empty.calls cs).build size = r ↔ Builds size cs r)
      ∧ ∀ cs' : List (Call σ), (∀ c, LastOf cs' c ↔ LastOf cs c) →
          (empty.calls cs').build size = (empty.calls cs).build size := by
  refine ⟨fun r => ⟨?_, Builds.build_eq⟩, fun cs' h => ?_⟩
  · rintro rfl
    exact builds_build size cs
  · rw [calls_congr h]

/-- A program of two bytes is too large for the smallest memory. It is replaced, and so is the host,
and the machine is the one that comes of the last two calls alone. By itself the program is not
looked at, for there is no host. -/
theorem build_decided_by_last_calls_replaced :
    ∃ (m : Machine 865) (g h : Scripted),
      g = .start .released #[1] ∧ h = .start .released #[2] ∧ m.Loaded #[0x60]
        ∧ (empty.calls [.program #[0x60, 0x01], .host g, .program #[0x60], .host h]).build 865
          = .ok (m, h)
        ∧ (empty.calls [.host h, .program #[0x60]]).build 865 = .ok (m, h)
        ∧ (empty.calls [.program #[0x60, 0x01], .host h]).build 865
          = .error (.programTooLarge 2 1)
        ∧ ((empty : Setup Scripted).calls [.program #[0x60, 0x01]]).build 865
          = .error .missingHost := by
  have hfits : #[(0x60 : UInt8)].size ≤ 865 - 864 := by decide
  have hload := Machine.load_eq_ok_iff.mpr ⟨hfits, rfl⟩
  obtain ⟨g, hg⟩ : ∃ g : Scripted, g = .start .released #[1] := ⟨_, rfl⟩
  obtain ⟨h, hh⟩ : ∃ h : Scripted, h = .start .released #[2] := ⟨_, rfl⟩
  obtain ⟨hbuild, hsame⟩ := build_decided_by_last_calls 865 [.host h, .program #[0x60]]
  have hok : (empty.calls [.host h, .program #[0x60]]).build 865
      = .ok (Machine.fresh 865 #[0x60], h) := by
    refine (hbuild _).mpr ?_
    have hb : Builds 865 [.host h, .program #[0x60]] ((Machine.load 865 #[0x60]).map (·, h)) :=
      .load (lastOf_cons.mpr (.inr ⟨rfl, by simp [Call.SameKind]⟩))
        ⟨[.host h], [], rfl, by simp⟩
    rwa [hload] at hb
  refine ⟨_, g, h, hg, hh, Machine.loaded_fresh (by decide) hfits, ?_, hok, ?_, ?_⟩
  · refine (hsame _ fun c => ?_).trans hok
    cases c <;> simp [lastOf_cons, not_lastOf_nil, Call.SameKind]
  · refine ((build_decided_by_last_calls 865 [.program #[0x60, 0x01], .host h]).1 _).mpr ?_
    have hb : Builds 865 [.program #[0x60, 0x01], .host h]
        ((Machine.load 865 #[0x60, 0x01]).map (·, h)) :=
      .load ⟨[.program #[0x60, 0x01]], [], rfl, by simp⟩
        (lastOf_cons.mpr (.inr ⟨rfl, by simp [Call.SameKind]⟩))
    rwa [Machine.load_eq_error_iff.mpr ⟨by decide, rfl⟩] at hb
  · refine ((build_decided_by_last_calls 865 [.program #[0x60, 0x01]]).1 _).mpr ?_
    exact .missingHost fun f => by simp

end ChipEight.Setup
