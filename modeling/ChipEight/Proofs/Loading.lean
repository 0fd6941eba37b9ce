import ChipEight.Proofs.Effects

/-!
# Freshly loaded machines

`Machine.fresh` is the machine that a successful load makes, and `load_eq_ok_iff`
says when a load is one: exactly when 864 bytes and the program fit into memory.

Its program lies below the display, where only two instructions write. As long as
none of them has, a machine still fetches the words that were loaded, and
`fetch_of_low` says which.
-/

namespace ChipEight

namespace Machine

/-- The machine that is about to execute the first instruction of `program`. -/
def fresh (size : Nat) (program : Array UInt8) : Machine size where
  registers := Vector.replicate 16 0
  index := 0
  pc := 512
  memory := .initial size program
  stack := []
  delay := .initial
  sound := .initial
  awaiting := none
  programLength := program.size

/-- A program is accepted as long as it fits, and then this is the machine. -/
theorem load_eq_ok_iff {size : Nat} {program : Array UInt8} {m : Machine size} :
    load size program = .ok m ↔ program.size ≤ size - 864 ∧ m = fresh size program := by
  rw [load, Layout.capacity_eq]
  split
  · rename_i h
    rw [Except.ok.injEq, eq_comm]
    exact ⟨fun hm => ⟨h, hm⟩, fun hm => hm.2⟩
  · rename_i h
    exact ⟨nofun, fun hm => absurd hm.1 h⟩

end Machine

namespace Memory

variable {size : Nat} {program : Array UInt8} {a : Nat}

/-- Below the display a byte is as it was put there. -/
theorem byte_of_low (mem : Memory size) (ha : a < Layout.displayStart size) :
    mem.byte a = mem.low[a] := by
  have : a < size := by rw [Layout.displayStart_eq] at ha; omega
  rw [byte_of_lt mem this, getElem_of_lt mem this ha]

theorem byte_eq_of_low {mem mem' : Memory size} (hl : mem.low = mem'.low)
    (ha : a < Layout.displayStart size) : mem.byte a = mem'.byte a := by
  rw [byte_of_low _ ha, byte_of_low _ ha]
  simp only [hl]

/-- The font is at the start of memory. -/
theorem byte_initial_font (ha : a < 80) (hs : 512 ≤ Layout.displayStart size) :
    (initial size program).byte a = Font.table[a] := by
  rw [byte_of_low _ (by omega)]
  simp only [initial, Vector.getElem_ofFn, dif_pos ha]

/-- The program follows the bytes of the font, and zeros follow the program. -/
theorem byte_initial_program (h : 512 + a < Layout.displayStart size) :
    (initial size program).byte (512 + a) = program.getD a 0 := by
  rw [byte_of_low _ h]
  simp only [initial, Vector.getElem_ofFn]
  rw [dif_neg (by omega), if_neg (by rw [Layout.programStart]; omega), Layout.programStart,
    Nat.add_sub_cancel_left]

end Memory

/-- The `k`-th word of a program, its high byte first. -/
def wordAt (program : Array UInt8) (k : Nat) : UInt16 :=
  (program.getD (2 * k) 0).toUInt16 * 256 + (program.getD (2 * k + 1) 0).toUInt16

namespace Machine

variable {size : Nat}

theorem fetch_of_le {m : Machine size} (h : m.pc.toNat + 2 ≤ size) :
    m.fetch = .ok ((m.memory.byte m.pc.toNat).toUInt16 * 256 +
      (m.memory.byte (m.pc.toNat + 1)).toUInt16) := by
  rw [fetch, Memory.overrun?, if_pos h]

/-- Where memory below the display is as it was loaded, its words are those of the program. -/
theorem fetch_of_low {m : Machine size} {program : Array UInt8} {k : Nat}
    (hl : m.memory.low = (Memory.initial size program).low) (hpc : m.pc.toNat = 512 + 2 * k)
    (hk : 512 + (2 * k + 1) < Layout.displayStart size) : m.fetch = .ok (wordAt program k) := by
  have hb : ∀ a, 512 + a < Layout.displayStart size →
      m.memory.byte (512 + a) = program.getD a 0 := by
    intro a ha
    rw [Memory.byte_eq_of_low hl ha, Memory.byte_initial_program ha]
  have hs : m.pc.toNat + 2 ≤ size := by rw [Layout.displayStart_eq] at hk; omega
  rw [fetch_of_le hs, hpc, hb _ (by omega), Nat.add_assoc, hb _ hk]
  rfl

theorem next_of_low {m : Machine size} {program : Array UInt8} {k : Nat} {i : Instruction}
    (hl : m.memory.low = (Memory.initial size program).low) (hpc : m.pc.toNat = 512 + 2 * k)
    (hk : 512 + (2 * k + 1) < Layout.displayStart size)
    (hd : Instruction.decode (wordAt program k) = .ok i) :
    m.next = .ok (wordAt program k, i) := by
  simp only [next, fetch_of_low hl hpc hk, hd]

end Machine

end ChipEight
