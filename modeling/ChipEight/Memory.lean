import ChipEight.Display.Basic
import ChipEight.Layout

/-!
# Memory

Bytes at the addresses below `size`. The last 256 of them are the display, so they are kept as
one: what is drawn can be read back as bytes, and bytes written there appear on the screen.
`mem[a]` is the meaning of a memory, and `getElem_set` and `getElem_write` say what writing does
to it, with no word about where the display begins.
-/

namespace ChipEight

/-- The contents of `size` addresses: those below the display, and the display. -/
structure Memory (size : Nat) where
  low : Vector UInt8 (Layout.displayStart size)
  display : Display

namespace Memory

variable {size : Nat}

/-- The byte at an address. -/
def get (mem : Memory size) (a : Nat) (h : a < size) : UInt8 :=
  if lo : a < Layout.displayStart size then
    mem.low[a]
  else
    have : a - Layout.displayStart size < 256 := by
      rw [Layout.displayStart_eq] at *
      omega
    mem.display.bytes[a - Layout.displayStart size]

instance : GetElem (Memory size) Nat UInt8 fun _ a => a < size where
  getElem := get

/-- The byte at an address, and zero where there is no memory. Instructions look at addresses
only after they have been found to exist. -/
def byte (mem : Memory size) (a : Nat) : UInt8 := if h : a < size then mem[a] else 0

/-- The `count` bytes from address `start` on. -/
def read (mem : Memory size) (start count : Nat) : List UInt8 :=
  (List.range' start count).map mem.byte

/-- The whole contents, in the order of addresses. -/
def bytes (mem : Memory size) : List UInt8 := mem.low.toList ++ mem.display.bytes.toList

/-- The memory with the byte at one address replaced. -/
def set (mem : Memory size) (a : Nat) (b : UInt8) : Memory size :=
  if a < Layout.displayStart size then
    { mem with low := mem.low.setIfInBounds a b }
  else
    { mem with display := mem.display.setByte (a - Layout.displayStart size) b }

/-- The memory with the bytes from address `start` on replaced. -/
def write (mem : Memory size) (start : Nat) : List UInt8 → Memory size
  | [] => mem
  | b :: bs => (mem.set start b).write (start + 1) bs

theorem byte_of_lt (mem : Memory size) {a : Nat} (h : a < size) : mem.byte a = mem[a] := dif_pos h

theorem length_read (mem : Memory size) (start count : Nat) :
    (mem.read start count).length = count := by
  simp [read]

/-- Memory that has room for a display has no more and no less than its size. -/
theorem length_bytes (mem : Memory size) (h : 256 ≤ size) : mem.bytes.length = size := by
  rw [bytes, List.length_append, Vector.length_toList, Vector.length_toList, Layout.displayStart_eq]
  omega

/-- Below the display. -/
theorem getElem_of_lt (mem : Memory size) {a : Nat} (h : a < size)
    (lo : a < Layout.displayStart size) : mem[a] = mem.low[a] := dif_pos lo

/-- In the display. -/
theorem getElem_of_le (mem : Memory size) {a k : Nat} (h : a < size) (hk : k < 256)
    (e : a = Layout.displayStart size + k) : mem[a] = mem.display.bytes[k] := by
  subst e
  refine (dif_neg (by omega)).trans ?_
  simp only [Nat.add_sub_cancel_left]

theorem set_of_lt (mem : Memory size) {a : Nat} (b : UInt8) (h : a < Layout.displayStart size) :
    mem.set a b = { mem with low := mem.low.setIfInBounds a b } := if_pos h

theorem set_of_le (mem : Memory size) {a : Nat} (b : UInt8) (h : Layout.displayStart size ≤ a) :
    mem.set a b = { mem with display := mem.display.setByte (a - Layout.displayStart size) b } :=
  if_neg (Nat.not_lt.2 h)

/-- **A byte that is written is read back, and no other changes.** -/
theorem getElem_set (mem : Memory size) (a : Nat) (b : UInt8) {c : Nat} (hc : c < size) :
    (mem.set a b)[c] = if a = c then b else mem[c] := by
  have hs := Layout.displayStart_eq size
  by_cases hl : c < Layout.displayStart size
  · rw [getElem_of_lt _ hc hl, getElem_of_lt _ hc hl]
    by_cases ha : a < Layout.displayStart size
    · simp only [set_of_lt _ _ ha, Vector.getElem_setIfInBounds]
    · have : a ≠ c := by omega
      simp only [set_of_le _ _ (Nat.not_lt.1 ha), if_neg this]
  · obtain ⟨k, e⟩ : ∃ k, c = Layout.displayStart size + k :=
      ⟨c - Layout.displayStart size, by omega⟩
    have hk : k < 256 := by omega
    rw [getElem_of_le _ hc hk e, getElem_of_le _ hc hk e]
    by_cases ha : a < Layout.displayStart size
    · have : a ≠ c := by omega
      simp only [set_of_lt _ _ ha, if_neg this]
    · have : a - Layout.displayStart size = k ↔ a = c := by omega
      simp only [set_of_le _ _ (Nat.not_lt.1 ha), Display.setByte, Vector.getElem_setIfInBounds,
        this]

/-- A run of bytes that is written is read back, and no other byte changes. -/
theorem getElem_write (mem : Memory size) (start : Nat) (bs : List UInt8) {c : Nat} (hc : c < size) :
    (mem.write start bs)[c] = if start ≤ c then bs[c - start]?.getD mem[c] else mem[c] := by
  induction bs generalizing mem start with
  | nil => simp [write]
  | cons b bs ih =>
    rw [write, ih, getElem_set]
    rcases Nat.lt_trichotomy c start with h | rfl | h
    · have h1 : ¬ start + 1 ≤ c := by omega
      have h2 : ¬ start ≤ c := by omega
      have h3 : start ≠ c := by omega
      simp [h1, h2, h3]
    · have h1 : ¬ c + 1 ≤ c := by omega
      simp [h1]
    · obtain ⟨k, rfl⟩ : ∃ k, c = start + 1 + k := ⟨c - (start + 1), by omega⟩
      have h1 : start + 1 + k - start = k + 1 := by omega
      have h2 : start ≤ start + 1 + k := by omega
      have h3 : start ≠ start + 1 + k := by omega
      simp [h1, h2, h3]

/-! ## Memory as one list -/

theorem getElem?_bytes (mem : Memory size) (hs : 256 ≤ size) {a : Nat} (h : a < size) :
    mem.bytes[a]? = some mem[a] := by
  rw [bytes]
  by_cases hl : a < Layout.displayStart size
  · rw [List.getElem?_append_left (by rwa [Vector.length_toList]), getElem_of_lt mem h hl,
      List.getElem?_eq_getElem (by rwa [Vector.length_toList]), Vector.getElem_toList]
  · obtain ⟨k, e⟩ : ∃ k, a = Layout.displayStart size + k :=
      ⟨a - Layout.displayStart size, by omega⟩
    have hk : k < 256 := by
      have := Layout.displayStart_eq size
      omega
    rw [List.getElem?_append_right (by rw [Vector.length_toList]; omega),
      getElem_of_le mem h hk e, Vector.length_toList, e, Nat.add_sub_cancel_left,
      List.getElem?_eq_getElem (by rwa [Vector.length_toList]), Vector.getElem_toList]

/-- The list is known by its bytes. -/
theorem ext_bytes {bs : List UInt8} {mem : Memory size} (hs : 256 ≤ size) (hl : bs.length = size)
    (h : ∀ a (ha : a < size), bs[a]? = some mem[a]) : mem.bytes = bs := by
  refine List.ext_getElem? fun a => ?_
  rcases Nat.lt_or_ge a size with ha | ha
  · rw [getElem?_bytes mem hs ha, h a ha]
  · rw [List.getElem?_eq_none (by rwa [length_bytes mem hs]), List.getElem?_eq_none (by rwa [hl])]

/-- To read is to take a stretch of them. -/
theorem read_eq (mem : Memory size) (hs : 256 ≤ size) {start count : Nat}
    (h : start + count ≤ size) : mem.read start count = (mem.bytes.drop start).take count := by
  refine List.ext_getElem? fun k => ?_
  rw [read, List.getElem?_map]
  rcases Nat.lt_or_ge k count with hk | hk
  · rw [List.getElem?_range' hk, List.getElem?_take_of_lt hk, List.getElem?_drop,
      getElem?_bytes mem hs (by omega), Option.map_some, Nat.one_mul, byte_of_lt mem (by omega)]
  · rw [List.getElem?_eq_none (by rwa [List.length_range']),
      List.getElem?_eq_none (by rw [List.length_take]; omega)]
    rfl

/-- To write is to replace a stretch of them. -/
theorem bytes_write (mem : Memory size) (hs : 256 ≤ size) {start : Nat} {bs : List UInt8}
    (h : start + bs.length ≤ size) :
    (mem.write start bs).bytes
      = mem.bytes.take start ++ bs ++ mem.bytes.drop (start + bs.length) := by
  have hl := length_bytes mem hs
  refine ext_bytes hs ?_ fun a ha => ?_
  · simp only [List.length_append, List.length_take, List.length_drop, hl]
    omega
  · rw [getElem_write, List.append_assoc]
    by_cases h1 : a < start
    · rw [List.getElem?_append_left (by rw [List.length_take, hl]; omega),
        List.getElem?_take_of_lt h1, getElem?_bytes mem hs ha, if_neg (by omega)]
    · have ht : (mem.bytes.take start).length = start := by rw [List.length_take, hl]; omega
      rw [List.getElem?_append_right (by omega), ht, if_pos (by omega)]
      by_cases h2 : a - start < bs.length
      · rw [List.getElem?_append_left h2, List.getElem?_eq_getElem h2]; rfl
      · have : start + bs.length + (a - start - bs.length) = a := by omega
        rw [List.getElem?_append_right (by omega), List.getElem?_drop, this,
          getElem?_bytes mem hs ha, List.getElem?_eq_none (by omega : bs.length ≤ a - start)]
        rfl

/-- They end with those of the display. -/
theorem drop_bytes (mem : Memory size) :
    mem.bytes.drop (Layout.displayStart size) = mem.display.bytes.toList :=
  List.drop_left' Vector.length_toList

theorem take_bytes (mem : Memory size) :
    mem.bytes.take (Layout.displayStart size) = mem.low.toList :=
  List.take_left' Vector.length_toList

end Memory

end ChipEight
