import ChipEight.Hex

/-!
# Numerals in a text

A number in a text is a row of digits, and behind it the text goes on with something that is no
digit. So whoever knows the digits that are used can tell where a numeral ends and which number
it is, whether it is decimal or hexadecimal, in small letters or in capitals, and however it
is padded. `Numeral` is what a reader relies on there, and `Numeral.split` what comes of it.
-/

namespace ChipEight

/-- The digits of decimal numerals, each at the place of its value. -/
def decimal : List Char := ['0', '1', '2', '3', '4', '5', '6', '7', '8', '9']

/-- The digits of hexadecimal numerals in lowercase. -/
def Hex.lowercase : List Char :=
  ['0', '1', '2', '3', '4', '5', '6', '7', '8', '9', 'a', 'b', 'c', 'd', 'e', 'f']

/-- The digits of hexadecimal numerals in uppercase. -/
def Hex.uppercase : List Char :=
  ['0', '1', '2', '3', '4', '5', '6', '7', '8', '9', 'A', 'B', 'C', 'D', 'E', 'F']

/-- The number that a row of digits stands for, in the base that there are so many digits for. -/
def readDigits? (alphabet ds : List Char) : Option Nat :=
  ds.foldlM (fun n c => (alphabet.idxOf? c).map (alphabet.length * n + ·)) 0

/-- How a number is written in `width` digits or more. -/
structure Numeral (alphabet : List Char) (width : Nat) (s : String) (n : Nat) : Prop where
  /-- There are no other characters than these digits. -/
  mem : ∀ c ∈ s.toList, c ∈ alphabet
  /-- There are as many as are asked for, or more. -/
  width_le : width ≤ s.toList.length
  /-- There are no more than that with a zero in front. -/
  of_zero : s.toList.head? = some '0' → s.toList.length = width
  /-- They stand for the number. -/
  reads : readDigits? alphabet s.toList = some n

/-! ## What is written is a numeral -/

/-- The digits of numbers, each changed by `f`, are those of the alphabet. -/
structure Writes (f : Char → Char) (alphabet : List Char) : Prop where
  one_lt : 1 < alphabet.length
  zero : f '0' = '0'
  value : ∀ d < alphabet.length, alphabet.idxOf? (f d.digitChar) = some d

theorem writes_decimal : Writes id decimal := ⟨by decide, rfl, by decide⟩

theorem Hex.writes_lowercase : Writes id Hex.lowercase := ⟨by decide, rfl, by decide⟩

theorem Hex.writes_uppercase : Writes Char.toUpper Hex.uppercase :=
  ⟨by decide, by decide, by decide⟩

theorem readDigits?_snoc (alphabet ds : List Char) (c : Char) :
    readDigits? alphabet (ds ++ [c])
      = (readDigits? alphabet ds).bind fun n =>
          (alphabet.idxOf? c).map (alphabet.length * n + ·) := by
  simp [readDigits?, List.foldlM_append]

namespace Writes

variable {f : Char → Char} {alphabet : List Char}

theorem pos (hf : Writes f alphabet) : 0 < alphabet.length := Nat.lt_trans Nat.zero_lt_one hf.one_lt

theorem value_zero (hf : Writes f alphabet) : alphabet.idxOf? '0' = some 0 := by
  have h := hf.value 0 hf.pos
  rwa [show Nat.digitChar 0 = '0' from rfl, hf.zero] at h

theorem mem (hf : Writes f alphabet) {d : Nat} (hd : d < alphabet.length) :
    f d.digitChar ∈ alphabet := by
  refine List.isSome_idxOf?.mp ?_
  rw [hf.value d hd]
  rfl

/-- A digit that looks like a zero is one. -/
theorem eq_zero (hf : Writes f alphabet) {d : Nat} (hd : d < alphabet.length)
    (h : f d.digitChar = '0') : d = 0 := by
  have hv := hf.value d hd
  rw [h, hf.value_zero] at hv
  exact (Option.some.inj hv).symm

/-- The digits of a number read as the number. -/
theorem readDigits?_toDigits (hf : Writes f alphabet) (n : Nat) :
    readDigits? alphabet ((Nat.toDigits alphabet.length n).map f) = some n := by
  have hbase := hf.one_lt
  induction n using Nat.strongRecOn with
  | ind n ih =>
    rw [Nat.toDigits_eq_if hbase]
    split
    · rename_i h
      have hread := readDigits?_snoc alphabet [] (f n.digitChar)
      rw [hf.value n h] at hread
      simpa [readDigits?] using hread
    · rename_i h
      have hdigit : n % alphabet.length < alphabet.length := Nat.mod_lt n (by omega)
      have hrest : n / alphabet.length < n := Nat.div_lt_self (by omega) hbase
      rw [List.map_append, List.map_singleton, readDigits?_snoc, ih _ hrest, hf.value _ hdigit]
      exact congrArg some (Nat.div_add_mod n alphabet.length)

/-- Zeros on the left do not count. -/
theorem readDigits?_zeros (hf : Writes f alphabet) (k : Nat) (ds : List Char) :
    readDigits? alphabet (List.replicate k '0' ++ ds) = readDigits? alphabet ds := by
  induction k with
  | zero => rfl
  | succ k ih =>
    rw [← ih, List.replicate_succ, List.cons_append, readDigits?, List.foldlM_cons, hf.value_zero]
    rfl

theorem mem_of_toDigits (hf : Writes f alphabet) (n : Nat) :
    ∀ c ∈ (Nat.toDigits alphabet.length n).map f, c ∈ alphabet := by
  have hbase := hf.one_lt
  induction n using Nat.strongRecOn with
  | ind n ih =>
    intro c hc
    rw [Nat.toDigits_eq_if hbase] at hc
    split at hc
    · rename_i h
      rw [List.map_singleton] at hc
      rw [List.mem_singleton.mp hc]
      exact hf.mem h
    · rename_i h
      have hrest : n / alphabet.length < n := Nat.div_lt_self (by omega) hbase
      rw [List.map_append, List.map_singleton] at hc
      rcases List.mem_append.mp hc with hc | hc
      · exact ih _ hrest c hc
      · rw [List.mem_singleton.mp hc]
        exact hf.mem (Nat.mod_lt n (by omega))

/-- Only zero begins with a zero. -/
theorem eq_zero_of_head? (hf : Writes f alphabet) {n : Nat}
    (h : ((Nat.toDigits alphabet.length n).map f).head? = some '0') : n = 0 := by
  have hbase := hf.one_lt
  induction n using Nat.strongRecOn with
  | ind n ih =>
    rw [Nat.toDigits_eq_if hbase] at h
    split at h
    · rename_i hn
      exact hf.eq_zero hn (Option.some.inj h)
    · rename_i hn
      have hrest : n / alphabet.length < n := Nat.div_lt_self (by omega) hbase
      have hsome : ((Nat.toDigits alphabet.length (n / alphabet.length)).map f).head?.isSome := by
        rw [List.isSome_head?, Ne, List.map_eq_nil_iff]
        exact Nat.toDigits_ne_nil
      rw [List.map_append, List.head?_append, Option.or_of_isSome hsome] at h
      have hz := ih _ hrest h
      exact absurd (Nat.div_eq_zero_iff.mp hz) (by omega)

/-- **Padded with zeros where it has fewer digits than are asked for, a number is a numeral.** -/
theorem numeral (hf : Writes f alphabet) {width n : Nat} (hw : 0 < width) {s : String}
    (hs : s.toList = List.replicate (width - (Nat.toDigits alphabet.length n).length) '0'
      ++ (Nat.toDigits alphabet.length n).map f) : Numeral alphabet width s n where
  mem c hc := by
    rw [hs] at hc
    rcases List.mem_append.mp hc with hc | hc
    · rw [List.eq_of_mem_replicate hc, ← hf.zero]
      exact hf.mem hf.pos
    · exact hf.mem_of_toDigits n c hc
  width_le := by
    rw [hs, List.length_append, List.length_replicate, List.length_map]
    omega
  of_zero h := by
    rw [hs, List.length_append, List.length_replicate, List.length_map]
    rcases Nat.lt_or_ge (Nat.toDigits alphabet.length n).length width with hlt | hge
    · omega
    · -- nothing was filled up, so it is the number itself that begins with a zero
      rw [hs, Nat.sub_eq_zero_of_le hge, List.replicate_zero, List.nil_append] at h
      have hone : (Nat.toDigits alphabet.length n).length = 1 := by
        rw [hf.eq_zero_of_head? h, Nat.toDigits_of_lt_base hf.pos]
        rfl
      omega
  reads := by rw [hs, hf.readDigits?_zeros, hf.readDigits?_toDigits]

end Writes

theorem numeral_decimal (n : Nat) : Numeral decimal 1 (toString n) n := by
  refine writes_decimal.numeral Nat.zero_lt_one ?_
  have hlen : 1 ≤ (Nat.toDigits decimal.length n).length :=
    List.length_pos_iff.mpr Nat.toDigits_ne_nil
  rw [Nat.sub_eq_zero_of_le hlen, List.replicate_zero, List.nil_append, List.map_id]
  exact String.toList_ofList

namespace Hex

variable {width : Nat}

theorem numeral_lower (hw : 0 < width) (n : Nat) :
    Numeral lowercase width (lower width n) n := by
  refine writes_lowercase.numeral hw ?_
  rw [lower, String.toList_ofList, List.map_id]
  rfl

theorem numeral_upper (hw : 0 < width) (n : Nat) :
    Numeral uppercase width (upper width n) n := by
  refine writes_uppercase.numeral hw ?_
  have hz : Char.toUpper '0' = '0' := writes_uppercase.zero
  rw [upper, String.toList_ofList, digits, List.map_append, List.map_replicate, hz]
  rfl

end Hex

/-! ## A numeral in a text -/

/-- Whether a text begins with something that is no digit, so that a numeral before it has come to
its end. -/
def ends (alphabet : List Char) (s : String) : Bool := s.toList.head?.any fun c => c ∉ alphabet

section Texts

variable {alphabet : List Char} {width width' m n : Nat} {s s' t t' : String}

theorem exists_of_ends (ht : ends alphabet t) : ∃ c cs, t.toList = c :: cs ∧ c ∉ alphabet := by
  rw [ends] at ht
  cases hc : t.toList with
  | nil =>
    rw [hc] at ht
    cases ht
  | cons c cs =>
    rw [hc] at ht
    exact ⟨c, cs, rfl, of_decide_eq_true ht⟩

theorem ends_append (ht : ends alphabet t) (t' : String) : ends alphabet (t ++ t') := by
  obtain ⟨c, cs, hcs, hc⟩ := exists_of_ends ht
  rw [ends, String.toList_append, hcs]
  exact decide_eq_true hc

/-- A numeral is as much of the text as there are digits. -/
theorem Numeral.takeWhile_eq (h : Numeral alphabet width s m) (ht : ends alphabet t) :
    (s ++ t).toList.takeWhile (· ∈ alphabet) = s.toList := by
  obtain ⟨c, cs, hcs, hn⟩ := exists_of_ends ht
  have hs : ∀ d ∈ s.toList, decide (d ∈ alphabet) = true := fun d hd => decide_eq_true (h.mem d hd)
  rw [String.toList_append, hcs, List.takeWhile_append_of_pos hs,
    List.takeWhile_cons_of_neg (by rw [decide_eq_true_eq]; exact hn), List.append_nil]

/-- A numeral is that of one number only. -/
theorem Numeral.unique (h : Numeral alphabet width s m) (h' : Numeral alphabet width' s n) :
    m = n :=
  Option.some.inj (h.reads.symm.trans h'.reads)

/-- **A numeral can be told from what comes behind it,** and so can the number. -/
theorem Numeral.split (h : Numeral alphabet width s m) (h' : Numeral alphabet width' s' n)
    (ht : ends alphabet t) (ht' : ends alphabet t') (heq : s ++ t = s' ++ t') :
    m = n ∧ t = t' := by
  have hs : s = s' := by rw [← String.toList_inj, ← h.takeWhile_eq ht, heq, h'.takeWhile_eq ht']
  subst hs
  exact ⟨h.unique h', (String.append_right_inj _).mp heq⟩

/-- The same where both texts go on with the words `u`, and differ behind them if at all. -/
theorem Numeral.split_at (h : Numeral alphabet width s m) (h' : Numeral alphabet width' s' n)
    {u : String} (hu : ends alphabet u) (heq : s ++ (u ++ t) = s' ++ (u ++ t')) :
    m = n ∧ t = t' := by
  obtain ⟨hn, hrest⟩ := h.split h' (ends_append hu t) (ends_append hu t') heq
  exact ⟨hn, (String.append_right_inj u).mp hrest⟩

/-- What a text begins with does not depend on how it goes on. -/
theorem take_toList_append {k : Nat} (h : k ≤ s.toList.length) (t : String) :
    (s ++ t).toList.take k = s.toList.take k := by
  rw [String.toList_append, List.take_append_of_le_length h]

end Texts

end ChipEight
