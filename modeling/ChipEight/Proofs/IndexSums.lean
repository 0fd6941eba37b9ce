import Mathlib.Algebra.Ring.Nat
import ChipEight.Proofs.FaultCauses
import ChipEight.Proofs.IndexOut
import ChipEight.Proofs.Plain.Instructions

/-!
# What additions to the index register come to

The sum of the index register and a byte may have seventeen bits, of which the register
holds sixteen. It stays at 65535 then, so one addition after the other comes to the same as
a single one of everything that was added: what was cut off once would have been cut off in
the end. `History.index_eq` says this of any history that does not set the register anew.

The flag is about the sum and not about what is left of it. It tells that the sum is no
address, whether memory ends before 65536 or there is no such address at all. A register that
has left memory stays outside, so as long as memory does not reach up to where the register
stops, a flag that was set once is set by every addition from then on.
-/

namespace ChipEight

variable {size : Nat} {σ : Type} [Host σ]

namespace Machine

theorem toNat_index_of_addIndex (m : Machine size) (g : σ) (x : Register) :
    (m.perform g (.addIndex x)).1.index.toNat
      = min (m.index.toNat + (m.v x).toNat) 65535 := by
  rw [index_perform]
  dsimp only
  rw [UInt16.toNat_ofNat']
  omega

/-- The flag is that of the sum, with the byte as it was before. -/
theorem toNat_flag_of_addIndex (m : Machine size) (g : σ) (x : Register) :
    ((m.perform g (.addIndex x)).1.v .flag).toNat
      = if min size 65536 ≤ m.index.toNat + (m.v x).toNat then 1 else 0 := by
  rw [v_perform]
  dsimp only
  rw [if_pos rfl]
  split
  · rename_i h
    rw [decide_eq_true h]
    rfl
  · rename_i h
    rw [decide_eq_false h]
    rfl

/-- Beyond a memory of 65535 bytes or fewer, every addition sets the flag. -/
theorem flag_of_indexOut {m : Machine size} (h : m.IndexOut) (hsize : size ≤ 65535) (g : σ)
    (x : Register) : (m.perform g (.addIndex x)).1.v .flag = 1 := by
  have hsum : min size 65536 ≤ m.index.toNat + (m.v x).toNat := by
    unfold IndexOut at h
    omega
  have hf := m.toNat_flag_of_addIndex g x
  rw [if_pos hsum] at hf
  exact UInt8.toNat_inj.mp hf

end Machine

namespace Moment

/-- The byte that is added to the index register, if the move is a step that adds one. -/
def indexAdded? (x : Moment size σ) : Option Nat :=
  match x.executed? with
  | some (.addIndex r) => some (x.before.machine.v r).toNat
  | _ => none

/-- What becomes of the index register where it is not set anew. -/
theorem index_after (x : Moment size σ)
    (hx : ∀ i, x.executed? = some i → i.setsIndex = false) :
    x.after.machine.index.toNat
      = min (x.before.machine.index.toNat + x.indexAdded?.getD 0) 65535 := by
  have hmax := x.before.machine.index.toNat_lt
  have hkept : x.before.machine.index.toNat
      = min (x.before.machine.index.toNat + 0) 65535 := by omega
  rw [indexAdded?]
  cases x.effect with
  | keyStored hi _ hm | ticked hi _ hm | still hi _ hm =>
    rw [hi, hm]
    exact hkept
  | @executed _ i hi _ _ _ hm =>
    have hset := hx i hi
    rw [hi, hm]
    cases i with
    | setIndex t | pointGlyph r => cases hset
    | addIndex r => exact x.before.machine.toNat_index_of_addIndex x.before.host r
    | _ =>
      rw [Machine.index_perform]
      exact hkept

theorem exists_of_indexAdded? {x : Moment size σ} (h : x.indexAdded?.isSome) :
    ∃ r, x.after.machine = (x.before.machine.perform x.before.host (.addIndex r)).1 := by
  rw [indexAdded?] at h
  split at h
  · rename_i r hi
    exact ⟨r, machine_of_executed hi⟩
  · cases h

end Moment

namespace History

variable {s t : Session size σ} {xs : List (Moment size σ)}

/-- **Many additions come to one.** -/
theorem index_eq (h : History s xs t)
    (hx : ∀ y ∈ xs, ∀ i, y.executed? = some i → i.setsIndex = false) :
    t.machine.index.toNat
      = min (s.machine.index.toNat + (xs.filterMap Moment.indexAdded?).sum) 65535 := by
  induction h with
  | nil s =>
    have hmax := s.machine.index.toNat_lt
    rw [List.filterMap_nil, List.sum_nil]
    omega
  | @cons s _ xs mv _ ih =>
    obtain ⟨hy, hxs⟩ := List.forall_mem_cons.mp hx
    have hsum : ((⟨s, mv⟩ :: xs : List (Moment size σ)).filterMap Moment.indexAdded?).sum
        = (Moment.mk s mv).indexAdded?.getD 0 + (xs.filterMap Moment.indexAdded?).sum := by
      cases ha : (Moment.mk s mv).indexAdded? with
      | none => rw [List.filterMap_cons_none ha, Option.getD_none, Nat.zero_add]
      | some a => rw [List.filterMap_cons_some ha, Option.getD_some, List.sum_cons]
    -- what the first move has cut off stays cut off, whatever is added to the rest
    have hfirst : (s.after mv).machine.index.toNat
        = min (s.machine.index.toNat + (Moment.mk s mv).indexAdded?.getD 0) 65535 :=
      Moment.index_after ⟨s, mv⟩ hy
    rw [ih hxs, hsum, hfirst]
    omega

/-- A flag that was set once is set again, unless memory reaches up to where the register stops. -/
theorem flag_again (h : History s xs t)
    (hx : ∀ y ∈ xs, ∀ i, y.executed? = some i → i.setsIndex = false) (hsize : size ≤ 65535)
    {as bs cs : List (Moment size σ)} {y z : Moment size σ} (hxs : xs = as ++ y :: (bs ++ z :: cs))
    (hy : y.indexAdded?.isSome) (hf : y.after.machine.v .flag = 1) (hz : z.indexAdded?.isSome) :
    z.after.machine.v .flag = 1 := by
  subst hxs
  obtain ⟨ry, hry⟩ := Moment.exists_of_indexAdded? hy
  obtain ⟨rz, hrz⟩ := Moment.exists_of_indexAdded? hz
  have hout : y.after.machine.IndexOut := by
    rw [hry] at hf ⊢
    exact Machine.indexOut_of_flag y.before.host hf
  have hbetween : History y.after bs z.before := by
    obtain ⟨u, -, hu⟩ := h.of_append
    cases hu with
    | cons mv hu => exact hu.before_of_append
  have hbs : ∀ w ∈ bs, ∀ i, w.executed? = some i → i.setsIndex = false := fun w hw =>
    hx w (List.mem_append_right _ (List.mem_cons_of_mem _ (List.mem_append_left _ hw)))
  rw [hrz]
  exact Machine.flag_of_indexOut (hbetween.indexOut hout hbs) hsize z.before.host rz

end History

/--
**An addition is that of integers up to 65535, and so are any number of them.**

In any session in which a step finds an addition, the index register holds the sum of its old
value and the old VX afterwards, or 65535 if the sum is greater. The flag is set if the sum is
no address, and cleared otherwise. VX may be the flag register, and no other register
changes. On plain data, where the flag is that of a sum which comes round and the register takes one
which does not, the instruction comes to the same.

Let then anything happen that does not set the index register anew, so that nothing but
additions can change it. It has not gone down, and it holds its first value and
everything that was added, or 65535 if that is more. In a memory of 65535 bytes or fewer, of
two additions the later one sets the flag if the earlier one did.
-/
theorem additions_add_up (s : Session size σ) :
    (∀ x, s.machine.awaiting = none → s.machine.Finds (.addIndex x) →
        s.step.event.outcome = .done
          ∧ (s.after .step).machine.index.toNat
            = min (s.machine.index.toNat + (s.machine.v x).toNat) 65535
          ∧ ((s.after .step).machine.v .flag).toNat
            = (if min size 65536 ≤ s.machine.index.toNat + (s.machine.v x).toNat then 1 else 0)
          ∧ (∀ r, r ≠ .flag → (s.after .step).machine.v r = s.machine.v r)
          ∧ ∀ limit,
            s.machine.plain.apply limit size s.host (Instruction.addIndex x).toWord (.addIndex x)
              = .ok (.ok (), (s.after .step).machine.plain, (s.after .step).host, []))
      ∧ ∀ (xs : List (Moment size σ)) (t : Session size σ), History s xs t →
        (∀ y ∈ xs, ∀ i, y.executed? = some i → i.setsIndex = false) →
          s.machine.index.toNat ≤ t.machine.index.toNat
            ∧ t.machine.index.toNat
              = min (s.machine.index.toNat + (xs.filterMap Moment.indexAdded?).sum) 65535
            ∧ (size ≤ 65535 → ∀ as y bs z cs, xs = as ++ y :: (bs ++ z :: cs) →
              y.indexAdded?.isSome → y.after.machine.v .flag = 1 →
              z.indexAdded?.isSome → z.after.machine.v .flag = 1) := by
  refine ⟨fun x hx hi => ?_, fun xs t h hn => ?_⟩
  · obtain ⟨he, ha⟩ := Session.step_of_finds hx hi rfl
    rw [he, ha]
    refine ⟨rfl, s.machine.toNat_index_of_addIndex s.host x,
      s.machine.toNat_flag_of_addIndex s.host x, fun r hr => ?_, fun limit => ?_⟩
    · exact (Machine.v_perform ..).trans (if_neg hr)
    · exact Plain.addIndex_plain s.machine s.host rfl
  · have heq := h.index_eq hn
    have hmax := s.machine.index.toNat_lt
    refine ⟨by omega, heq, fun hsize as y bs z cs hxs hy hf hz => ?_⟩
    exact h.flag_again hn hsize hxs hy hf hz

/-- The flag register is added twice. The first addition leaves memory, and with the flag that it
sets the second one goes further. -/
theorem additions_add_up_of_flag :
    ∃ s t u : Session 4096 Headless,
      Machine.load 4096 #[0xAF, 0xFF, 0x6F, 0x01, 0xFF, 0x1E, 0xFF, 0x1E] = .ok s.machine
        ∧ t = s.requests [.move .step, .move .step]
        ∧ u = t.requests [.move .step, .move .step]
        ∧ t.machine.Finds (.addIndex .flag)
        ∧ t.machine.index.toNat = 4095
        ∧ (t.after .step).machine.index.toNat = 4096
        ∧ (t.after .step).machine.v .flag = 1
        ∧ u.machine.index.toNat = 4097
        ∧ u.machine.v .flag = 1 := by
  have hd : Layout.displayStart 4096 = 3840 := Layout.displayStart_eq _
  obtain ⟨s, hm, h0⟩ := Session.exists_atWord 4096
    #[0xAF, 0xFF, 0x6F, 0x01, 0xFF, 0x1E, 0xFF, 0x1E] Headless.mk (by decide)
  obtain ⟨-, a0, h1⟩ :=
    Session.step_of_isStraight (i := .setIndex 0xFFF) h0 (by omega) (by decide) rfl rfl
  obtain ⟨-, a1, h2⟩ :=
    Session.step_of_isStraight (i := .set .flag 1) h1 (by omega) (by decide) rfl rfl
  obtain ⟨t, ht⟩ : ∃ t, t = (s.after .step).after .step := ⟨_, rfl⟩
  rw [← ht] at a1 h2
  have hindex : t.machine.index.toNat = 4095 := by
    rw [a1, a0]
    rfl
  have hflag : t.machine.v .flag = 1 := by
    rw [a1]
    exact Vector.getElem_set_self _
  obtain ⟨e2, -, h3⟩ :=
    Session.step_of_isStraight (i := .addIndex .flag) h2 (by omega) (by decide) rfl rfl
  obtain ⟨e3, -, -⟩ :=
    Session.step_of_isStraight (i := .addIndex .flag) h3 (by omega) (by decide) rfl rfl
  have hi : t.machine.Finds (.addIndex .flag) :=
    Machine.finds_of_next (h2.next (by omega) (by decide) rfl)
  obtain ⟨hfirst, hall⟩ := additions_add_up t
  obtain ⟨-, i1, f1, -⟩ := hfirst .flag h2.awaiting_eq hi
  rw [hindex, hflag] at i1 f1
  replace f1 : (t.after .step).machine.v .flag = 1 := UInt8.toNat_inj.mp f1
  have x0 : (Moment.mk t .step).executed? = some (.addIndex .flag) := by
    rw [Moment.executed?, e2]
    rfl
  have x1 : (Moment.mk (t.after .step) .step).executed? = some (.addIndex .flag) := by
    rw [Moment.executed?, e3]
    rfl
  have y0 : (Moment.mk t .step).indexAdded? = some 1 := by
    rw [Moment.indexAdded?, x0]
    exact congrArg (fun b : UInt8 => some b.toNat) hflag
  have y1 : (Moment.mk (t.after .step) .step).indexAdded? = some 1 := by
    rw [Moment.indexAdded?, x1]
    exact congrArg (fun b : UInt8 => some b.toNat) f1
  obtain ⟨-, isum, fagain⟩ := hall [⟨t, .step⟩, ⟨t.after .step, .step⟩] _
    (.cons .step (.cons .step (.nil _)))
    (List.forall_mem_cons.mpr ⟨fun i hi' => by rw [x0] at hi'; cases hi'; rfl,
      List.forall_mem_singleton.mpr fun i hi' => by rw [x1] at hi'; cases hi'; rfl⟩)
  rw [List.filterMap_cons_some y0, List.filterMap_cons_some y1, hindex] at isum
  have f2 := fagain (by decide) [] ⟨t, .step⟩ [] ⟨t.after .step, .step⟩ [] rfl
    (by rw [y0]; rfl) f1 (by rw [y1]; rfl)
  exact ⟨s, t, _, hm, ht, rfl, hi, hindex, i1, f1, isum, f2⟩

end ChipEight
