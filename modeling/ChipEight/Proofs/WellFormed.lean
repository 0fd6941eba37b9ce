import ChipEight.Proofs.Loading

/-!
# What holds of every machine at work

The program counter has sixteen bits and so have the addresses on the call stack,
but a machine that began with a load does not get everywhere with them. Their
bounds hold each other up. A call is carried out only after its word was read, so
the address behind it is no further than where memory ends. A return goes to such
an address. Everything else goes on behind a word that was read, or jumps to where
an instruction can name.

While a key is awaited no instruction is carried out. So the one that asked for
the key still stands at the program counter, as it was read.
-/

namespace ChipEight

variable {size : Nat} {σ : Type} [Host σ]

/-- Sixteen bits wrap around, which never makes a sum greater. -/
theorem toNat_add_le (a b : UInt16) : (a + b).toNat ≤ a.toNat + b.toNat := by
  rw [UInt16.toNat_add]
  exact Nat.mod_le _ _

namespace Machine

/-- What a machine keeps, whatever is done to it. -/
structure WellFormed (m : Machine size) : Prop where
  /-- No more calls are open than there are slots for them. -/
  depth_le : m.stack.length ≤ 12
  /-- Calls come back to memory, or to its end. -/
  back_le : ∀ a ∈ m.stack, a.toNat ≤ size
  /-- The furthest that skips lead beyond memory, or else that jumps lead. -/
  pc_le : m.pc.toNat ≤ max (size + 2) 0x10FE
  /-- The program fits. -/
  programLength_le : m.programLength ≤ size - 864
  /-- A key is awaited by the instruction at the program counter. -/
  waiting : ∀ x, m.awaiting = some x → m.fetch = .ok (Instruction.awaitKey x).toWord

theorem wellFormed_of_load {program : Array UInt8} {m : Machine size}
    (h : load size program = .ok m) : m.WellFormed := by
  obtain ⟨hp, rfl⟩ := load_eq_ok_iff.mp h
  refine ⟨Nat.zero_le _, nofun, ?_, hp, nofun⟩
  exact Nat.le_trans (by decide : (512 : UInt16).toNat ≤ 0x10FE) (Nat.le_max_right _ _)

theorem WellFormed.tick {m : Machine size} (h : m.WellFormed) : m.tick.WellFormed :=
  ⟨h.depth_le, h.back_le, h.pc_le, h.programLength_le, h.waiting⟩

/-- The key goes in, and execution goes on behind the word that was read. -/
theorem WellFormed.storeKey {m : Machine size} (h : m.WellFormed) {x : Register}
    (hx : m.awaiting = some x) (key : Key) : (m.storeKey key x).WellFormed := by
  have hle : m.pc.toNat + 2 ≤ size := (fetch_eq_ok_iff.mp (h.waiting x hx)).1
  refine ⟨h.depth_le, h.back_le, ?_, h.programLength_le, nofun⟩
  exact Nat.le_trans (toNat_add_le m.pc 2) (Nat.le_trans hle (by omega))

section Perform

variable {m : Machine size} {word : UInt16} {i : Instruction}

theorem WellFormed.depth_perform (h : m.WellFormed) (g : σ) (ho : m.obstacle? i = none) :
    (m.perform g i).1.stack.length ≤ 12 := by
  have hd := h.depth_le
  rw [stack_perform]
  cases i with
  | ret =>
    dsimp only
    rw [List.length_tail]
    omega
  | call t =>
    simp only [obstacle?, ite_eq_left_iff, reduceCtorEq, imp_false, Decidable.not_not] at ho
    exact ho
  | _ => exact hd

theorem WellFormed.back_perform (h : m.WellFormed) (g : σ) (hle : m.pc.toNat + 2 ≤ size) :
    ∀ a ∈ (m.perform g i).1.stack, a.toNat ≤ size := by
  rw [stack_perform]
  intro a ha
  cases i with
  | ret => exact h.back_le a (List.mem_of_mem_tail ha)
  | call t =>
    rcases List.mem_cons.mp ha with rfl | ha
    · exact Nat.le_trans (toNat_add_le m.pc 2) hle
    · exact h.back_le a ha
  | _ => exact h.back_le a ha

theorem WellFormed.pc_perform_le (h : m.WellFormed) (g : σ) (hle : m.pc.toNat + 2 ≤ size) :
    (m.perform g i).1.pc.toNat ≤ max (size + 2) 0x10FE := by
  have hnext : (m.pc + 2).toNat ≤ size := Nat.le_trans (toNat_add_le m.pc 2) hle
  have hskip : ∀ c : Bool, (m.pc + if c then 4 else 2).toNat ≤ size + 2 := by
    intro c
    cases c with
    | false => exact Nat.le_trans hnext (Nat.le_add_right _ _)
    | true => exact Nat.le_trans (toNat_add_le m.pc 4) (Nat.add_le_add_right hle 2)
  have hjump : ∀ n, n ≤ 0x10FE → (UInt16.ofNat n).toNat ≤ max (size + 2) 0x10FE := by
    intro n hn
    rw [UInt16.toNat_ofNat']
    exact Nat.le_trans (Nat.mod_le _ _) (Nat.le_trans hn (Nat.le_max_right _ _))
  rw [pc_perform]
  cases i with
  | ret =>
    dsimp only
    cases hs : m.stack with
    | nil => exact h.pc_le
    | cons a st =>
      have ha : a.toNat ≤ size := h.back_le a (by rw [hs]; exact List.mem_cons_self)
      exact Nat.le_trans ha (by omega)
  | jump t | call t => exact hjump _ (by omega)
  | jumpOffset t =>
    have := (m.v .offset).toNat_lt
    exact hjump _ (by omega)
  | awaitKey x => exact h.pc_le
  | skipIfByte | skipUnlessByte | skipIfEqual | skipUnlessEqual | skipIfKey | skipUnlessKey =>
    exact Nat.le_trans (hskip _) (Nat.le_max_left _ _)
  | _ => exact Nat.le_trans hnext (by omega)

/-- **Every instruction that is carried out keeps the machine well formed.** -/
theorem WellFormed.perform (h : m.WellFormed) (g : σ) (hx : m.awaiting = none)
    (hn : m.next = .ok (word, i)) (ho : m.obstacle? i = none) :
    (m.perform g i).1.WellFormed := by
  obtain ⟨hf, hw⟩ := next_eq_ok_iff.mp hn
  have hle : m.pc.toNat + 2 ≤ size := (fetch_eq_ok_iff.mp hf).1
  refine ⟨h.depth_perform g ho, h.back_perform g hle, h.pc_perform_le g hle, ?_, ?_⟩
  · rw [programLength_perform]
    exact h.programLength_le
  · intro x hx'
    rw [awaiting_perform] at hx'
    cases i with
    | awaitKey y =>
      -- nothing else has changed, so the word is read once more
      cases hx'
      rw [hw]
      exact hf
    | _ => rw [hx] at hx'; cases hx'

end Perform

end Machine

/-- **So does every move.** -/
theorem wellFormed_after {s : Session size σ} (h : s.machine.WellFormed) (mv : Move σ) :
    (s.after mv).machine.WellFormed := by
  cases mv with
  | tick => exact h.tick
  | alter g => exact h
  | step =>
    change (s.machine.step s.host).machine.WellFormed
    cases s.machine.stepCases s.host with
    | blocked _ _ hs | unreadable _ _ hs | refused _ _ _ hs => rw [hs]; exact h
    | keyStored hx _ hs => rw [hs]; exact h.storeKey hx _
    | executed hx hn ho hs => rw [hs]; exact h.perform s.host hx hn ho

theorem History.wellFormed {s t : Session size σ} {xs : List (Moment size σ)} (h : History s xs t)
    (hs : s.machine.WellFormed) : t.machine.WellFormed :=
  h.preserves (P := fun t => t.machine.WellFormed) (fun _ mv ht => wellFormed_after ht mv) hs

/-- The two bytes of a word that waits for a key. -/
theorem Machine.bytes_of_fetch_awaitKey {m : Machine size} {x : Register}
    (h : m.fetch = .ok (Instruction.awaitKey x).toWord) :
    256 * (m.memory.byte m.pc.toNat).toNat + (m.memory.byte (m.pc.toNat + 1)).toNat
      = 0xF00A + 256 * x.val := by
  rw [← toNat_of_fetch h, Instruction.toNat_toWord, Instruction.code]
  omega

/--
**Whatever is asked of a machine after its load, it stays well formed.**

Its memory stays of one length, and as long as it waits for a key, the word at the
program counter is the instruction that does.
-/
theorem wellFormed_requests {program : Array UInt8} (hsize : 865 ≤ size) {s : Session size σ}
    (hm : Machine.load size program = .ok s.machine) (rs : List (Request σ)) :
    (s.requests rs).machine.WellFormed
      ∧ (s.requests rs).machine.memory.bytes.length = size
      ∧ ∀ x, (s.requests rs).machine.awaiting = some x →
          x.val ≤ 15
            ∧ (s.requests rs).machine.pc.toNat + 2 ≤ size
            ∧ 256 * ((s.requests rs).machine.memory.byte (s.requests rs).machine.pc.toNat).toNat
                + ((s.requests rs).machine.memory.byte
                    ((s.requests rs).machine.pc.toNat + 1)).toNat
              = 0xF00A + 256 * x.val := by
  have h := (history_trail s rs).wellFormed (Machine.wellFormed_of_load hm)
  refine ⟨h, Memory.length_bytes _ (by omega), fun x hx => ?_⟩
  have hf := h.waiting x hx
  exact ⟨by omega, (Machine.fetch_eq_ok_iff.mp hf).1, Machine.bytes_of_fetch_awaitKey hf⟩

/-- A program that asks for a key at once. -/
theorem wellFormed_requests_waiting :
    ∃ s t : Session 866 Headless, Machine.load 866 #[0xF0, 0x0A] = .ok s.machine
      ∧ t = s.requests [.move .step]
      ∧ t.machine.awaiting = some 0
      ∧ t.machine.WellFormed
      ∧ 256 * (t.machine.memory.byte t.machine.pc.toNat).toNat
          + (t.machine.memory.byte (t.machine.pc.toNat + 1)).toNat = 0xF00A := by
  let s : Session 866 Headless := ⟨.fresh 866 #[0xF0, 0x0A], ⟨⟩⟩
  have hm : Machine.load 866 #[0xF0, 0x0A] = .ok s.machine :=
    Machine.load_eq_ok_iff.mpr ⟨by decide, rfl⟩
  have hn : s.machine.next = .ok (wordAt #[0xF0, 0x0A] 0, .awaitKey 0) := by
    refine Machine.next_of_low rfl rfl ?_ rfl
    rw [Layout.displayStart_eq]; decide
  have hx : (s.requests [.move .step]).machine.awaiting = some 0 := by
    show (s.after .step).machine.awaiting = some 0
    rw [(Session.step_of_next rfl hn rfl).2]
    rfl
  obtain ⟨h1, _, h2⟩ := wellFormed_requests (by decide) hm [.move .step]
  obtain ⟨_, _, h3⟩ := h2 0 hx
  exact ⟨s, _, hm, rfl, hx, h1, h3⟩

end ChipEight
