import ChipEight.Proofs.FaultCauses
import ChipEight.Proofs.Writes

/-!
# Registers that are saved and come back

Two instructions carry registers between the machine and its memory, and a third one writes
the digits of a register there. All three work on the bytes from the index register on, and
none of them moves it. So what one has written, another finds where it was
written, as long as the bytes are still there and the index register has come back to them.

Nothing is said about where in memory this is. The bytes may be on the display, in the
font or among the instructions to be carried out next: a byte that is written is
read back wherever it is (`Memory.byte_of_write`), and a byte that is written over itself changes
nothing (`Memory.write_self`).
-/

namespace ChipEight

variable {size : Nat} {σ : Type} [Host σ]

/-- An entry that is replaced by itself. -/
theorem setIfInBounds_getElem {α : Type} {n : Nat} (v : Vector α n) {k : Nat} (h : k < n) :
    v.setIfInBounds k v[k] = v := by
  refine Vector.ext fun j hj => ?_
  rw [Vector.getElem_setIfInBounds]
  split
  · rename_i hkj
    subst hkj
    rfl
  · rfl

namespace Memory

variable (mem : Memory size) {start : Nat} {bs : List UInt8}

/-- What is written is there. -/
theorem byte_of_write (h : start + bs.length ≤ size) {k : Nat} {b : UInt8}
    (hk : bs[k]? = some b) : (mem.write start bs).byte (start + k) = b := by
  obtain ⟨hlt, -⟩ := List.getElem?_eq_some_iff.mp hk
  rw [byte_write mem start bs (by omega), if_pos (Nat.le_add_right start k),
    Nat.add_sub_cancel_left, hk, Option.getD_some]

theorem set_self {a : Nat} (h : a < size) : mem.set a (mem.byte a) = mem := by
  have hd := Layout.displayStart_eq size
  rw [byte_of_lt mem h]
  by_cases hl : a < Layout.displayStart size
  · rw [set_of_lt mem _ hl, getElem_of_lt mem h hl, setIfInBounds_getElem]
  · obtain ⟨k, rfl⟩ : ∃ k, a = Layout.displayStart size + k :=
      ⟨a - Layout.displayStart size, by omega⟩
    have hk : k < 256 := by omega
    rw [set_of_le mem _ (Nat.le_add_right _ k), getElem_of_le mem h hk rfl,
      Nat.add_sub_cancel_left, Display.setByte, setIfInBounds_getElem]

/-- To write what is there already changes nothing. -/
theorem write_self (h : start + bs.length ≤ size)
    (hbs : ∀ k b, bs[k]? = some b → mem.byte (start + k) = b) : mem.write start bs = mem := by
  induction bs generalizing start with
  | nil => rfl
  | cons b bs ih =>
    rw [List.length_cons] at h
    have hb : mem.byte start = b := hbs 0 b rfl
    have htail : ∀ k c, bs[k]? = some c → mem.byte (start + 1 + k) = c := by
      intro k c hk
      rw [Nat.add_assoc, Nat.add_comm 1 k]
      exact hbs (k + 1) c hk
    rw [write, ← hb, mem.set_self (by omega), ih (by omega) htail]

end Memory

/-- The decimal digits of a byte are digits, and make up the byte. -/
theorem value_decimalDigits (b : UInt8) :
    (b / 100).toNat ≤ 9 ∧ (b / 10 % 10).toNat ≤ 9 ∧ (b % 10).toNat ≤ 9
      ∧ 100 * (b / 100).toNat + 10 * (b / 10 % 10).toNat + (b % 10).toNat = b.toNat := by
  have hb := b.toNat_lt
  have h10 : (10 : UInt8).toNat = 10 := rfl
  have h100 : (100 : UInt8).toNat = 100 := rfl
  rw [UInt8.toNat_mod, UInt8.toNat_mod, UInt8.toNat_div, UInt8.toNat_div, h10, h100]
  omega

namespace Machine

variable (m : Machine size) (g : σ) {x : Register}

/-- An instruction that reaches memory goes through where memory has what it needs. -/
theorem obstacle?_eq_none_of_span? {i : Instruction} {n : Nat} (hs : i.span? = some n)
    (h : m.index.toNat + n ≤ size) : m.obstacle? i = none := by
  rw [m.obstacle?_of_span? hs]
  exact Memory.overrun?_eq_none_iff.mpr h

/-- The registers up to VX, as they are saved. -/
theorem length_saved (x : Register) :
    (m.registers.toList.take (x.val + 1)).length = x.val + 1 := by
  rw [List.length_take, Vector.length_toList]
  omega

theorem getElem?_saved {x r : Register} (hr : r ≤ x) :
    (m.registers.toList.take (x.val + 1))[r.val]? = some (m.v r) := by
  rw [List.getElem?_take_of_lt (Nat.lt_succ_of_le (Fin.le_def.mp hr)), Vector.getElem?_toList,
    Vector.getElem?_eq_getElem r.isLt]
  rfl

/-- Each register is saved to a byte of its own. -/
theorem byte_of_save (h : m.index.toNat + (x.val + 1) ≤ size) {r : Register} (hr : r ≤ x) :
    (m.perform g (.save x)).1.memory.byte (m.index.toNat + r.val) = m.v r := by
  rw [memory_perform]
  exact m.memory.byte_of_write (by rwa [length_saved]) (m.getElem?_saved hr)

/-- And comes back from there. -/
theorem v_of_restore (x r : Register) :
    (m.perform g (.restore x)).1.v r
      = if r ≤ x then m.memory.byte (m.index.toNat + r.val) else m.v r := by
  rw [v_perform]
  exact m.v_restore x r

/-- Registers that were just restored are saved to where they were. -/
theorem memory_of_restore_save (f : σ) (h : m.index.toNat + (x.val + 1) ≤ size) :
    ((m.perform g (.restore x)).1.perform f (.save x)).1.memory = m.memory := by
  have hindex : (m.perform g (.restore x)).1.index = m.index := index_perform ..
  have hmemory : (m.perform g (.restore x)).1.memory = m.memory := memory_perform ..
  rw [memory_perform]
  dsimp only [memoryAfter]
  rw [hindex, hmemory]
  refine m.memory.write_self (by rwa [length_saved]) fun k b hk => ?_
  obtain ⟨hlt, -⟩ := List.getElem?_eq_some_iff.mp hk
  rw [length_saved] at hlt
  have hkx : (⟨k, by omega⟩ : Register) ≤ x := Fin.le_def.mpr (Nat.le_of_lt_succ hlt)
  have hv := (m.perform g (.restore x)).1.getElem?_saved hkx
  rw [v_of_restore, if_pos hkx] at hv
  exact Option.some.inj (hv.symm.trans hk)

/-- The digits of VX are written one behind the other. -/
theorem byte_of_writeDecimal (h : m.index.toNat + 3 ≤ size) {k : Nat} {b : UInt8}
    (hk : (decimalDigits (m.v x))[k]? = some b) :
    (m.perform g (.writeDecimal x)).1.memory.byte (m.index.toNat + k) = b := by
  rw [memory_perform]
  exact m.memory.byte_of_write h hk

end Machine

/-! ## Instructions from elsewhere -/

/-- What can be done to a session: a move, or an instruction that need not be in memory. -/
inductive Deed (σ : Type) where
  | move (mv : Move σ)
  | apply (i : Instruction)

namespace Session

/-- Carry an instruction out that need not be in memory, if nothing stands in its way. -/
def apply (s : Session size σ) (i : Instruction) : Except Error (Session size σ) :=
  match s.machine.obstacle? i with
  | some e => .error e
  | none => .ok ⟨(s.machine.perform s.host i).1, (s.machine.perform s.host i).2⟩

/-- The session after a deed. An instruction that is refused changes nothing. -/
def deed (s : Session size σ) : Deed σ → Session size σ
  | .move mv => s.after mv
  | .apply i => (s.apply i).toOption.getD s

/-- The session after a list of deeds. -/
def deeds (s : Session size σ) (ds : List (Deed σ)) : Session size σ := ds.foldl deed s

/-- The index register is the same in both, and so are the `count` bytes from there on. -/
structure SameStretch (t u : Session size σ) (count : Nat) : Prop where
  index_eq : u.machine.index = t.machine.index
  byte_eq : ∀ k < count, u.machine.memory.byte (t.machine.index.toNat + k)
    = t.machine.memory.byte (t.machine.index.toNat + k)

variable {s t u : Session size σ} {i : Instruction}

theorem apply_of_none (ho : s.machine.obstacle? i = none) :
    s.apply i = .ok ⟨(s.machine.perform s.host i).1, (s.machine.perform s.host i).2⟩ := by
  rw [apply, ho]

/-- A step carries out the instruction that it finds in no other way. -/
theorem after_step_of_apply (hx : s.machine.awaiting = none) (hi : s.machine.Finds i)
    (ha : s.apply i = .ok t) : s.after .step = t := by
  rw [apply] at ha
  split at ha
  · cases ha
  · rename_i ho
    rw [(step_of_finds hx hi ho).2]
    exact Except.ok.inj ha

/-- Registers are restored from where the bytes are still the same. -/
theorem apply_restore_of_sameStretch {count : Nat} (h : t.SameStretch u count) {x : Register}
    (hx : x.val + 1 ≤ count) (hr : t.machine.index.toNat + count ≤ size) :
    ∃ w, u.apply (.restore x) = .ok w
      ∧ ∀ r, w.machine.v r
        = if r ≤ x then t.machine.memory.byte (t.machine.index.toNat + r.val)
          else u.machine.v r := by
  have ho : u.machine.obstacle? (.restore x) = none := by
    refine u.machine.obstacle?_eq_none_of_span? rfl ?_
    rw [h.index_eq]
    omega
  refine ⟨_, apply_of_none ho, fun r => ?_⟩
  rw [Machine.v_of_restore, h.index_eq]
  by_cases hrx : r ≤ x
  · have hle := Fin.le_def.mp hrx
    rw [if_pos hrx, if_pos hrx, h.byte_eq r.val (by omega)]
  · rw [if_neg hrx, if_neg hrx]

end Session

/--
**Registers that were saved can be restored, and those that were restored are saved where they
were.**

`s` is any session, and its index register may point anywhere in memory. Registers are saved
there, and then anything is done that ends with the same index register and the same
bytes, in whatever way it gets back to them. As many of these registers as one likes are
restored to what they were, and no other register changes. To restore registers and then to
save them leaves memory as it was. Of a register that was written in decimal three digits
are restored, and they make up its value.

Where an instruction is applied here it need not be in memory. A step that finds one applies it.
-/
theorem saved_registers_come_back (s : Session size σ) (x : Register) :
    (∀ i t, s.machine.awaiting = none → s.machine.Finds i → s.apply i = .ok t →
        s.after .step = t)
      ∧ (s.machine.index.toNat + (x.val + 1) ≤ size →
        ∃ t, s.apply (.save x) = .ok t
          ∧ ∀ x' ≤ x, ∀ (ds : List (Deed σ)) (u : Session size σ), u = t.deeds ds →
            t.SameStretch u (x.val + 1) →
            u.machine.index = s.machine.index
              ∧ ∃ w, u.apply (.restore x') = .ok w
                ∧ ∀ r, w.machine.v r = if r ≤ x' then s.machine.v r else u.machine.v r)
      ∧ (s.machine.index.toNat + (x.val + 1) ≤ size →
        ∃ t u, s.apply (.restore x) = .ok t ∧ t.apply (.save x) = .ok u
          ∧ u.machine.memory = s.machine.memory)
      ∧ (s.machine.index.toNat + 3 ≤ size →
        ∃ t, s.apply (.writeDecimal x) = .ok t
          ∧ ∀ (ds : List (Deed σ)) (u : Session size σ), u = t.deeds ds →
            t.SameStretch u 3 →
            u.machine.index = s.machine.index
              ∧ ∃ w, u.apply (.restore 2) = .ok w
                ∧ (w.machine.v 0).toNat ≤ 9 ∧ (w.machine.v 1).toNat ≤ 9
                ∧ (w.machine.v 2).toNat ≤ 9
                ∧ 100 * (w.machine.v 0).toNat + 10 * (w.machine.v 1).toNat
                    + (w.machine.v 2).toNat = (s.machine.v x).toNat
                ∧ ∀ r, 2 < r → w.machine.v r = u.machine.v r) := by
  refine ⟨fun _ _ hx hi ha => Session.after_step_of_apply hx hi ha, fun hr => ?_, fun hr => ?_,
    fun hr => ?_⟩
  · have ho := s.machine.obstacle?_eq_none_of_span? (i := .save x) rfl hr
    refine ⟨_, Session.apply_of_none ho, fun x' hx ds u _ hu => ?_⟩
    have hle := Fin.le_def.mp hx
    -- saving has not moved the index register
    have hindex : (s.machine.perform s.host (.save x)).1.index = s.machine.index :=
      Machine.index_perform ..
    obtain ⟨w, hw, hv⟩ := Session.apply_restore_of_sameStretch hu (x := x') (by omega)
      (by rw [hindex]; exact hr)
    refine ⟨hu.index_eq.trans hindex, w, hw, fun r => ?_⟩
    rw [hv]
    split
    · rename_i hrx
      rw [hindex]
      exact s.machine.byte_of_save s.host hr (Fin.le_trans hrx hx)
    · rfl
  · have ho := s.machine.obstacle?_eq_none_of_span? (i := .restore x) rfl hr
    have hindex : (s.machine.perform s.host (.restore x)).1.index = s.machine.index :=
      Machine.index_perform ..
    have ho' := (s.machine.perform s.host (.restore x)).1.obstacle?_eq_none_of_span?
      (i := .save x) rfl (by rw [hindex]; exact hr)
    exact ⟨_, _, Session.apply_of_none ho, Session.apply_of_none ho',
      s.machine.memory_of_restore_save s.host (s.machine.perform s.host (.restore x)).2 hr⟩
  · have ho := s.machine.obstacle?_eq_none_of_span? (i := .writeDecimal x) rfl hr
    refine ⟨_, Session.apply_of_none ho, fun ds u _ hu => ?_⟩
    have hindex : (s.machine.perform s.host (.writeDecimal x)).1.index = s.machine.index :=
      Machine.index_perform ..
    obtain ⟨w, hw, hv⟩ := Session.apply_restore_of_sameStretch hu (x := 2) (by decide)
      (by rw [hindex]; exact hr)
    have hdigit : ∀ (r : Register) (b : UInt8), r ≤ 2 →
        (decimalDigits (s.machine.v x))[r.val]? = some b → w.machine.v r = b := by
      intro r b hr2 hb
      rw [hv, if_pos hr2, hindex]
      exact s.machine.byte_of_writeDecimal s.host hr hb
    refine ⟨hu.index_eq.trans hindex, w, hw, ?_⟩
    rw [hdigit 0 _ (by decide) rfl, hdigit 1 _ (by decide) rfl, hdigit 2 _ (by decide) rfl]
    obtain ⟨h0, h1, h2, hsum⟩ := value_decimalDigits (s.machine.v x)
    exact ⟨h0, h1, h2, hsum, fun r hr2 => by rw [hv, if_neg (Fin.not_le.mpr hr2)]⟩

/-- Two registers are saved to the last byte below the display and to the first one in it. Then the
index register is led astray and back. Of V0 and V1 only V0 is restored. Where V0 was written in
decimal instead, its digits are. -/
theorem saved_registers_come_back_from_display :
    ∃ s t u w d e : Session 4096 Headless,
      Machine.load 4096 #[0xAE, 0xFF, 0x60, 0xEB] = .ok s.machine
        ∧ (s.requests [.move .step, .move .step]).apply (.save 1) = .ok t
        ∧ u = t.deeds [.apply (.set 0 1), .apply (.set 1 5), .apply (.setIndex 0),
            .apply (.setIndex 0xEFF)]
        ∧ u.apply (.restore 0) = .ok w
        ∧ w.machine.v 0 = 235 ∧ w.machine.v 1 = 5
        ∧ (s.requests [.move .step, .move .step]).apply (.writeDecimal 0) = .ok d
        ∧ d.apply (.restore 2) = .ok e
        ∧ e.machine.v 0 = 2 ∧ e.machine.v 1 = 3 ∧ e.machine.v 2 = 5 := by
  have hd : Layout.displayStart 4096 = 3840 := Layout.displayStart_eq _
  obtain ⟨s, hm, h0⟩ := Session.exists_atWord 4096 #[0xAE, 0xFF, 0x60, 0xEB] Headless.mk (by decide)
  obtain ⟨-, a0, h1⟩ :=
    Session.step_of_isStraight (i := .setIndex 0xEFF) h0 (by omega) (by decide) rfl rfl
  obtain ⟨-, a1, -⟩ :=
    Session.step_of_isStraight (i := .set 0 235) h1 (by omega) (by decide) rfl rfl
  obtain ⟨r, hr⟩ : ∃ r, r = s.requests [.move .step, .move .step] := ⟨_, rfl⟩
  have hstep : r = (s.after .step).after .step := hr
  have hindex : r.machine.index = 0xEFF := by
    rw [hstep, a1, a0]
    rfl
  have hv : r.machine.v 0 = 235 := by
    rw [hstep, a1]
    exact Vector.getElem_set_self _
  have hn : r.machine.index.toNat = 3839 := by
    rw [hindex]
    rfl
  obtain ⟨-, hsave, -, -⟩ := saved_registers_come_back r 1
  obtain ⟨t, ht, hback⟩ := hsave (by rw [hn]; decide)
  have htindex : t.machine.index = r.machine.index := by
    rw [Session.apply_of_none (r.machine.obstacle?_eq_none_of_span? rfl (by rw [hn]; decide))] at ht
    rw [← Except.ok.inj ht]
    exact Machine.index_perform ..
  obtain ⟨-, w, hw, hrestored⟩ := hback 0 (by decide)
    [.apply (.set 0 1), .apply (.set 1 5), .apply (.setIndex 0), .apply (.setIndex 0xEFF)] _ rfl
    ⟨by rw [htindex, hindex]; rfl, fun k _ => rfl⟩
  obtain ⟨-, -, -, hdecimal⟩ := saved_registers_come_back r 0
  obtain ⟨d, hwrite, hdigits⟩ := hdecimal (by rw [hn]; decide)
  obtain ⟨-, e, he, ha, hb, hc, hsum, -⟩ := hdigits [] d rfl ⟨rfl, fun k _ => rfl⟩
  rw [hv] at hsum
  change _ = 235 at hsum
  refine ⟨s, t, _, w, d, e, hm, hr ▸ ht, rfl, hw, ?_, ?_, hr ▸ hwrite, he, ?_, ?_, ?_⟩
  · exact (hrestored 0).trans hv
  · rw [hrestored, if_neg (by decide)]
    exact Vector.getElem_set_self _
  · exact UInt8.toNat_inj.mp (by show _ = 2; omega)
  · exact UInt8.toNat_inj.mp (by show _ = 3; omega)
  · exact UInt8.toNat_inj.mp (by show _ = 5; omega)

end ChipEight
