import Mathlib.Data.List.Forall2
import ChipEight.Log
import ChipEight.Proofs.Decoding
import ChipEight.Proofs.Messages

/-!
# What a line of the log shows

A log is read as text. It is of use only as far as a line tells what it is about: at which address,
of which word and which instruction, with which key and register, or with which error.

`Record.Shows` says how each record is written. The words are those of the log, and every number
between them is a `Numeral`, in the base and the width of its place. `Record.shows_line` says that
the lines are written this way, and `Record.Shows.unique` that no line can be taken for that of
another record. An instruction is shown by its listing, which is dealt with first.
-/

namespace ChipEight

/-! ## Listings -/

/-- A text that shows an operand: its name, and its value in decimal. -/
def ShowsOperand (o : String × Nat) (s : String) : Prop :=
  ∃ v, Numeral decimal 1 v o.2 ∧ s = o.1 ++ ": " ++ v

/-- Behind an operand of a known name the text can be cut. -/
theorem ShowsOperand.split {o o' : String × Nat} {s s' t t' : String} (h : ShowsOperand o s)
    (h' : ShowsOperand o' s') (hn : o.1 = o'.1) (ht : ends decimal t) (ht' : ends decimal t')
    (heq : s ++ t = s' ++ t') : o = o' ∧ t = t' := by
  obtain ⟨v, hv, rfl⟩ := h
  obtain ⟨v', hv', rfl⟩ := h'
  rw [hn] at heq
  simp only [String.append_assoc, String.append_right_inj] at heq
  obtain ⟨hvalue, hrest⟩ := hv.split hv' ht ht' heq
  exact ⟨Prod.ext hn hvalue, hrest⟩

/-- Operands of known names can be told from the text that ends in a brace. -/
theorem operands_unique {os os' : List (String × Nat)} {ss ss' : List String}
    (h : List.Forall₂ ShowsOperand os ss) (h' : List.Forall₂ ShowsOperand os' ss')
    (hn : os.map Prod.fst = os'.map Prod.fst)
    (heq : ", ".intercalate ss ++ " \x7d" = ", ".intercalate ss' ++ " \x7d") : os = os' := by
  induction h generalizing os' ss' with
  | nil => exact (List.map_eq_nil_iff.mp hn.symm).symm
  | cons ho hos ih =>
    cases h' with
    | nil => cases hn
    | cons ho' hos' =>
      obtain ⟨hname, hnames⟩ := List.cons_eq_cons.mp hn
      cases hos with
      | nil =>
        cases hos' with
        | cons _ _ => cases hnames
        | nil =>
          rw [String.intercalate_singleton, String.intercalate_singleton] at heq
          rw [(ho.split ho' hname (by decide) (by decide) heq).1]
      | cons hp hps =>
        cases hos' with
        | nil => cases hnames
        | cons hp' hps' =>
          simp only [String.intercalate_cons_cons, String.append_assoc] at heq
          obtain ⟨rfl, hrest⟩ := ho.split ho' hname (ends_append (by decide) _)
            (ends_append (by decide) _) heq
          rw [String.append_right_inj] at hrest
          rw [ih (.cons hp' hps') hnames hrest]

namespace Listed

/-- A text that shows a form, and its operands in braces if it has any. -/
inductive Shows : Listed → String → Prop where
  | bare (form : String) : Shows ⟨form, []⟩ form
  | braced (form : String) {o : String × Nat} {os : List (String × Nat)} {ss : List String}
      (h : List.Forall₂ ShowsOperand (o :: os) ss) :
      Shows ⟨form, o :: os⟩ (form ++ " \x7b " ++ ", ".intercalate ss ++ " \x7d")

variable {p q : Listed} {s s' : String}

/-- The form is what comes first. -/
theorem Shows.take_eq (h : p.Shows s) (hp : p.WellFormed) : s.toList.take 5 = p.form.toList := by
  have hlen : ∀ form ∈ Form.all, form.toList.length = 5 := by decide
  have hl := hlen _ hp.exists_form
  cases h with
  | bare form => exact List.take_of_length_le (Nat.le_of_eq hl)
  | braced form _ =>
    simp only [String.append_assoc]
    rw [take_toList_append (Nat.le_of_eq hl.symm)]
    exact List.take_of_length_le (Nat.le_of_eq hl)

/-- **A text shows one well-formed listing only.** -/
theorem Shows.unique (h : p.Shows s) (h' : q.Shows s') (hp : p.WellFormed) (hq : q.WellFormed)
    (heq : s = s') : p = q := by
  have hform : p.form = q.form := by
    rw [← String.toList_inj, ← h.take_eq hp, ← h'.take_eq hq, heq]
  have hnames : p.operands.map Prod.fst = q.operands.map Prod.fst := by
    rw [hp.names_eq, hq.names_eq, hform]
  cases h with
  | bare form =>
    cases h' with
    | bare form' => exact congrArg (Listed.mk · []) hform
    | braced _ _ => cases hnames
  | braced form hos =>
    cases h' with
    | bare _ => cases hnames
    | braced form' hos' =>
      cases hform
      simp only [String.append_assoc, String.append_right_inj] at heq
      rw [operands_unique hos hos' hnames heq]

end Listed

namespace Instruction

/-- An instruction is listed by its form and its operands. -/
theorem shows_listing (i : Instruction) : i.listed.Shows i.listing := by
  rw [listed, listing]
  cases i.operands with
  | nil => exact .bare i.form
  | cons o os =>
    refine .braced i.form (List.forall₂_map_right_iff.mpr (List.forall₂_same.mpr fun o _ => ?_))
    exact ⟨_, numeral_decimal o.2, rfl⟩

/-- A text is the listing of one instruction only. -/
theorem eq_of_shows {i j : Instruction} {s s' : String} (h : i.listed.Shows s)
    (h' : j.listed.Shows s') (heq : s = s') : i = j :=
  listed_injective (h.unique h' i.wellFormed_listed j.wellFormed_listed heq)

end Instruction

/-! ## Lines -/

namespace Record

/-- A text that shows a record. -/
inductive Shows : Record → String → Prop where
  | loaded {length capacity : Nat} {l c : String} (hl : Numeral decimal 1 l length)
      (hc : Numeral decimal 1 c capacity) :
      Shows (.loaded length capacity)
        ("DEBUG loaded " ++ l ++ " of " ++ c ++ " bytes of program memory")
  | dispatched {pc word : UInt16} {i : Instruction} {p w listing : String}
      (hp : Numeral Hex.lowercase 3 p pc.toNat) (hw : Numeral Hex.uppercase 4 w word.toNat)
      (hi : i.listed.Shows listing) :
      Shows (.dispatched pc word i) ("TRACE 0x" ++ p ++ ": " ++ w ++ " " ++ listing)
  | waiting {pc : UInt16} {x : Register} {p v : String}
      (hp : Numeral Hex.lowercase 3 p pc.toNat) (hv : Numeral Hex.uppercase 1 v x.val) :
      Shows (.waiting pc x) ("DEBUG pc=0x" ++ p ++ ": waiting for a key for V" ++ v)
  | keyStored {key : Key} {x : Register} {k v : String}
      (hk : Numeral Hex.uppercase 1 k key.val) (hv : Numeral Hex.uppercase 1 v x.val) :
      Shows (.keyStored key x) ("DEBUG key " ++ k ++ " pressed, stored in V" ++ v)
  | failed {pc : UInt16} {e : Error} {p : String} (hp : Numeral Hex.lowercase 3 p pc.toNat) :
      Shows (.failed pc e) ("WARN pc=0x" ++ p ++ ": " ++ e.message)

/-- **The lines of a log are written this way.** -/
theorem shows_line (r : Record) : r.Shows r.line := by
  have hplace (pc : UInt16) : Numeral Hex.lowercase 3 (Hex.lower 3 pc.toNat) pc.toNat :=
    Hex.numeral_lower (by decide) _
  have hdigit (n : Nat) : Numeral Hex.uppercase 1 (Hex.upper 1 n) n :=
    Hex.numeral_upper Nat.zero_lt_one n
  -- the level is put in front of a text, so the first words of a line are put together from both
  cases r with
  | loaded length capacity =>
    have h := Shows.loaded (numeral_decimal length) (numeral_decimal capacity)
    rw [show "DEBUG loaded " = "DEBUG" ++ " " ++ "loaded " by decide] at h
    simpa only [line, Level.line, level, Level.name, text, String.append_assoc] using h
  | dispatched pc word i =>
    have hword : Numeral Hex.uppercase 4 (Hex.upper 4 word.toNat) word.toNat :=
      Hex.numeral_upper (by decide) _
    have h := Shows.dispatched (hplace pc) hword i.shows_listing
    rw [show "TRACE 0x" = "TRACE" ++ " " ++ "0x" by decide] at h
    simpa only [line, Level.line, level, Level.name, text, place, String.append_assoc] using h
  | waiting pc x =>
    have h := Shows.waiting (hplace pc) (hdigit x.val)
    rw [show "DEBUG pc=0x" = "DEBUG" ++ " " ++ "pc=" ++ "0x" by decide] at h
    simpa only [line, Level.line, level, Level.name, text, place, String.append_assoc] using h
  | keyStored key x =>
    have h := Shows.keyStored (hdigit key.val) (hdigit x.val)
    rw [show "DEBUG key " = "DEBUG" ++ " " ++ "key " by decide] at h
    simpa only [line, Level.line, level, Level.name, text, String.append_assoc] using h
  | failed pc e =>
    have h := Shows.failed (e := e) (hplace pc)
    rw [show "WARN pc=0x" = "WARN" ++ " " ++ "pc=" ++ "0x" by decide] at h
    simpa only [line, Level.line, level, Level.name, text, place, String.append_assoc] using h

/-- What a line begins with, as far as it takes to tell the kinds of records apart. -/
def opening : Record → String
  | .loaded _ _ => "DEBUG l"
  | .dispatched _ _ _ => "TRACE 0"
  | .waiting _ _ => "DEBUG p"
  | .keyStored _ _ => "DEBUG k"
  | .failed _ _ => "WARN pc"

variable {r r' : Record} {s s' : String}

theorem Shows.take_eq (h : r.Shows s) : s.toList.take 7 = r.opening.toList := by
  cases h with
  | loaded _ _ | dispatched _ _ _ | waiting _ _ | keyStored _ _ | failed _ =>
    simp only [String.append_assoc]
    rw [take_toList_append (by decide), opening]
    decide

/-- **A line shows one record only.** -/
theorem Shows.unique (h : r.Shows s) (h' : r'.Shows s') (heq : s = s') : r = r' := by
  have ho : r.opening = r'.opening := by
    rw [← String.toList_inj, ← h.take_eq, ← h'.take_eq, heq]
  cases h with
  | loaded hl hc =>
    cases h' with
    | loaded hl' hc' =>
      simp only [String.append_assoc, String.append_right_inj] at heq
      obtain ⟨rfl, hrest⟩ := hl.split_at hl' (by decide) heq
      obtain ⟨rfl, -⟩ := hc.split hc' (by decide) (by decide) hrest
      rfl
    | _ => simp [opening] at ho
  | dispatched hp hw hi =>
    cases h' with
    | dispatched hp' hw' hi' =>
      simp only [String.append_assoc, String.append_right_inj] at heq
      obtain ⟨hpc, hrest⟩ := hp.split_at hp' (by decide) heq
      obtain ⟨hword, hlisting⟩ := hw.split_at hw' (by decide) hrest
      rw [UInt16.toNat_inj.mp hpc, UInt16.toNat_inj.mp hword,
        Instruction.eq_of_shows hi hi' hlisting]
    | _ => simp [opening] at ho
  | waiting hp hv =>
    cases h' with
    | waiting hp' hv' =>
      simp only [String.append_assoc, String.append_right_inj] at heq
      obtain ⟨hpc, rfl⟩ := hp.split_at hp' (by decide) heq
      rw [UInt16.toNat_inj.mp hpc, Fin.ext (hv.unique hv')]
    | _ => simp [opening] at ho
  | keyStored hk hv =>
    cases h' with
    | keyStored hk' hv' =>
      simp only [String.append_assoc, String.append_right_inj] at heq
      obtain ⟨hkey, rfl⟩ := hk.split_at hk' (by decide) heq
      rw [Fin.ext hkey, Fin.ext (hv.unique hv')]
    | _ => simp [opening] at ho
  | failed hp =>
    cases h' with
    | failed hp' =>
      simp only [String.append_assoc, String.append_right_inj] at heq
      obtain ⟨hpc, hmessage⟩ := hp.split_at hp' (by decide) heq
      rw [UInt16.toNat_inj.mp hpc, Error.message_inj hmessage]
    | _ => simp [opening] at ho

/-- **Lines can be read as the records that they are the lines of, and as no others.** -/
theorem forall₂_shows_iff {rs rs' : List Record} :
    List.Forall₂ Shows rs' (rs.map line) ↔ rs' = rs := by
  have hrs : List.Forall₂ Shows rs (rs.map line) :=
    List.forall₂_map_right_iff.mpr (List.forall₂_same.mpr fun r _ => r.shows_line)
  constructor
  · intro h
    exact List.left_unique_forall₂' (fun _ _ _ h h' => h.unique h' rfl) h hrs
  · rintro rfl
    exact hrs

end Record

end ChipEight
