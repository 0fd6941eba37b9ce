import Mathlib.Algebra.Ring.Nat
import ChipEight.Instruction.Encoding
import ChipEight.Instruction.Listing

/-!
# A form says how its instructions are written

The name under which an instruction is listed shows where its operands are: `_DXYN` is a D, the
number of a register, the number of another and four bits more. So a name and some operands
already determine a word, with nothing said about decoding: put every operand where its letters
are. `Listed.number` does that, for operands of any size, and `Listed.WellFormed` keeps each to
the digits that it has.

Reading words is the inverse of it. A decoder that looked at one digit too few would read a
word as something that is not written that way, and one with two fields exchanged would read
back other operands than were written; both would go wrong on a few words only.
`decode_inverts_writing` says that there is no such word, and none that is refused without need.
-/

namespace ChipEight

/-- An instruction by what a listing says of it, its form and its operands. Nothing here keeps
an operand to its range, or a form to those that exist. -/
structure Listed where
  /-- The name, an underscore and four digits or letters. -/
  form : String
  /-- The operands, each under its letters. -/
  operands : List (String × Nat)
  deriving DecidableEq

namespace Form

/-- The forms that exist. -/
def all : List String :=
  ["_00E0", "_00EE", "_1NNN", "_2NNN", "_3XNN", "_4XNN", "_5XY0", "_6XNN", "_7XNN", "_8XY0",
    "_8XY1", "_8XY2", "_8XY3", "_8XY4", "_8XY5", "_8XY6", "_8XY7", "_8XYE", "_9XY0", "_ANNN",
    "_BNNN", "_CXNN", "_DXYN", "_EX9E", "_EXA1", "_FX07", "_FX0A", "_FX15", "_FX18", "_FX1E",
    "_FX29", "_FX33", "_FX55", "_FX65"]

/-- Whether a character of a form stands for a digit of an operand. -/
def isLetter (c : Char) : Bool := c = 'X' || c = 'Y' || c = 'N'

/-- What a character of a form is as a digit. A letter leaves its digit to the operand. -/
def digit (c : Char) : Nat :=
  if isLetter c then 0 else if c.isDigit then c.toNat - '0'.toNat else c.toNat - 'A'.toNat + 10

/-- The number that a form is without its operands. -/
def fixed (form : String) : Nat := (form.toList.drop 1).foldl (fun n c => 16 * n + digit c) 0

/-- The names of the operands of a form: its letters, equal ones together. -/
def names (form : String) : List String :=
  ((form.toList.filter isLetter).splitBy (· == ·)).map fun g => String.ofList (g.map Char.toLower)

/-- What one counts for in the operand called `name`: there are as many digits behind it as the
form has characters after the last letter of the name. -/
def weight (form name : String) : Nat :=
  16 ^ (form.toList.reverse.takeWhile fun c => !name.toList.contains c.toLower).length

theorem length_names : "x".length = 1 ∧ "y".length = 1 ∧ "n".length = 1 ∧ "nn".length = 2 ∧
    "nnn".length = 3 := by decide

end Form

namespace Listed

/-- The number that comes of putting every operand where its letters are. -/
def number (p : Listed) : Nat :=
  Form.fixed p.form + (p.operands.map fun o => o.2 * Form.weight p.form o.1).sum

/-- An existing form, with the operands that its name shows, in their ranges. -/
structure WellFormed (p : Listed) : Prop where
  /-- The form exists. -/
  exists_form : p.form ∈ Form.all
  /-- The operands are those of the form, in its order. -/
  names_eq : p.operands.map Prod.fst = Form.names p.form
  /-- No operand needs more digits than it has letters. -/
  fits : ∀ o ∈ p.operands, o.2 < 16 ^ o.1.length

theorem wellFormed_iff {p : Listed} : p.WellFormed ↔ p.form ∈ Form.all ∧
    p.operands.map Prod.fst = Form.names p.form ∧ ∀ o ∈ p.operands, o.2 < 16 ^ o.1.length :=
  ⟨fun ⟨h, hn, hf⟩ => ⟨h, hn, hf⟩, fun ⟨h, hn, hf⟩ => ⟨h, hn, hf⟩⟩

instance (p : Listed) : Decidable p.WellFormed := decidable_of_iff' _ wellFormed_iff

end Listed

/-- An instruction as it is listed. -/
def Instruction.listed (i : Instruction) : Listed := ⟨i.form, i.operands⟩

/-- What a word is read as, or why it is refused. -/
def Listed.ofWord (w : UInt16) : Except Error Listed :=
  (Instruction.decode w).map Instruction.listed

/-! ## Every instruction is listed the way it is written -/

namespace Instruction

theorem form_mem (i : Instruction) : i.form ∈ Form.all := by
  cases i with
  | combine op x y => cases op <;> simp [form, Operation.form, Form.all]
  | _ => simp [form, Form.all]

theorem names_operands (i : Instruction) : i.operands.map Prod.fst = Form.names i.form := by
  cases i with
  | combine op x y => cases op <;> simp only [operands, form, Operation.form, List.map] <;> decide
  | _ =>
    simp only [operands, form, List.map]
    decide

theorem operands_lt (i : Instruction) : ∀ o ∈ i.operands, o.2 < 16 ^ o.1.length := by
  cases i with
  | skipIfByte x n | skipUnlessByte x n | set x n | increase x n | random x n =>
    simpa [operands, Form.length_names] using n.toNat_lt
  | _ => simp [operands, Form.length_names]

theorem wellFormed_listed (i : Instruction) : i.listed.WellFormed :=
  ⟨i.form_mem, i.names_operands, i.operands_lt⟩

theorem number_listed (i : Instruction) : i.listed.number = i.code := by
  cases i with
  | combine op x y =>
    cases op <;>
      simp [Listed.number, listed, form, Operation.form, operands, Form.fixed, Form.digit,
        Form.isLetter, Form.weight, code, Operation.digit] <;> omega
  | _ =>
    simp [Listed.number, listed, form, operands, Form.fixed, Form.digit, Form.isLetter,
      Form.weight, code] <;> omega

/-- A listing leaves nothing out. -/
theorem listed_injective {i j : Instruction} (h : i.listed = j.listed) : i = j := by
  have hc : i.code = j.code := by rw [← number_listed, ← number_listed, h]
  have hr := ofCode?_code i
  rw [hc, ofCode?_code] at hr
  exact (Option.some.inj hr).symm

end Instruction

/-! ## Nothing else is well formed

A form determines the names of its operands, and the names and ranges determine how many values
of which kind there are. There are six kinds of operands, and a lemma for each takes an
instruction with them to every entry of its form.
-/

namespace Listed

/-- Operands with these names are these operands, up to their values. -/
theorem exists_of_map_fst {os : List (String × Nat)} {name : String} {names : List String}
    (h : os.map Prod.fst = name :: names) :
    ∃ v rest, os = (name, v) :: rest ∧ rest.map Prod.fst = names := by
  obtain ⟨⟨_, v⟩, rest, rfl, rfl, hr⟩ := List.map_eq_cons_iff.1 h
  exact ⟨v, rest, rfl, hr⟩

namespace WellFormed

variable {p : Listed}

/-- The names of the operands go with the form. -/
theorem names_of_listed (h : p.WellFormed) {i : Instruction} {os : List (String × Nat)}
    (hi : i.listed = ⟨p.form, os⟩) : p.operands.map Prod.fst = os.map Prod.fst := by
  have hf : i.form = p.form := congrArg form hi
  have ho : i.operands = os := congrArg operands hi
  rw [h.names_eq, ← hf, ← ho, i.names_operands]

theorem of_plain (h : p.WellFormed) {i : Instruction} (hi : i.listed = ⟨p.form, []⟩) :
    ∃ i : Instruction, i.listed = p := by
  have hp : p.operands = [] := List.map_eq_nil_iff.1 (h.names_of_listed hi)
  exact ⟨i, by rw [hi, ← hp]⟩

theorem of_address (h : p.WellFormed) (f : Address → Instruction)
    (hf : ∀ t, (f t).listed = ⟨p.form, [("nnn", t.val)]⟩) : ∃ i : Instruction, i.listed = p := by
  have hn : p.operands.map Prod.fst = ["nnn"] := h.names_of_listed (hf 0)
  obtain ⟨t, os, hp, hos⟩ := exists_of_map_fst hn
  rw [List.map_eq_nil_iff.1 hos] at hp
  have ht : t < 4096 := by simpa [hp, Form.length_names] using h.fits
  exact ⟨f ⟨t, ht⟩, by rw [hf, ← hp]⟩

theorem of_register (h : p.WellFormed) (f : Register → Instruction)
    (hf : ∀ x, (f x).listed = ⟨p.form, [("x", x.val)]⟩) : ∃ i : Instruction, i.listed = p := by
  have hn : p.operands.map Prod.fst = ["x"] := h.names_of_listed (hf 0)
  obtain ⟨x, os, hp, hos⟩ := exists_of_map_fst hn
  rw [List.map_eq_nil_iff.1 hos] at hp
  have hx : x < 16 := by simpa [hp, Form.length_names] using h.fits
  exact ⟨f ⟨x, hx⟩, by rw [hf, ← hp]⟩

theorem of_byte (h : p.WellFormed) (f : Register → UInt8 → Instruction)
    (hf : ∀ x n, (f x n).listed = ⟨p.form, [("x", x.val), ("nn", n.toNat)]⟩) :
    ∃ i : Instruction, i.listed = p := by
  have hn : p.operands.map Prod.fst = ["x", "nn"] := h.names_of_listed (hf 0 0)
  obtain ⟨x, xs, hp, hxs⟩ := exists_of_map_fst hn
  obtain ⟨n, ns, rfl, hns⟩ := exists_of_map_fst hxs
  rw [List.map_eq_nil_iff.1 hns] at hp
  obtain ⟨hx, hlt⟩ : x < 16 ∧ n < 256 := by simpa [hp, Form.length_names] using h.fits
  exact ⟨f ⟨x, hx⟩ (.ofNat n), by rw [hf, UInt8.toNat_ofNat_of_lt' hlt, ← hp]⟩

theorem of_registers (h : p.WellFormed) (f : Register → Register → Instruction)
    (hf : ∀ x y, (f x y).listed = ⟨p.form, [("x", x.val), ("y", y.val)]⟩) :
    ∃ i : Instruction, i.listed = p := by
  have hn : p.operands.map Prod.fst = ["x", "y"] := h.names_of_listed (hf 0 0)
  obtain ⟨x, xs, hp, hxs⟩ := exists_of_map_fst hn
  obtain ⟨y, ys, rfl, hys⟩ := exists_of_map_fst hxs
  rw [List.map_eq_nil_iff.1 hys] at hp
  obtain ⟨hx, hy⟩ : x < 16 ∧ y < 16 := by simpa [hp, Form.length_names] using h.fits
  exact ⟨f ⟨x, hx⟩ ⟨y, hy⟩, by rw [hf, ← hp]⟩

theorem of_rows (h : p.WellFormed) (f : Register → Register → Nibble → Instruction)
    (hf : ∀ x y n, (f x y n).listed = ⟨p.form, [("x", x.val), ("y", y.val), ("n", n.val)]⟩) :
    ∃ i : Instruction, i.listed = p := by
  have hn : p.operands.map Prod.fst = ["x", "y", "n"] := h.names_of_listed (hf 0 0 0)
  obtain ⟨x, xs, hp, hxs⟩ := exists_of_map_fst hn
  obtain ⟨y, ys, rfl, hys⟩ := exists_of_map_fst hxs
  obtain ⟨n, ns, rfl, hns⟩ := exists_of_map_fst hys
  rw [List.map_eq_nil_iff.1 hns] at hp
  obtain ⟨hx, hy, hlt⟩ : x < 16 ∧ y < 16 ∧ n < 16 := by
    simpa [hp, Form.length_names] using h.fits
  exact ⟨f ⟨x, hx⟩ ⟨y, hy⟩ ⟨n, hlt⟩, by rw [hf, ← hp]⟩

end WellFormed

/-- What is well formed is how some instruction is listed. -/
theorem WellFormed.exists_listed {p : Listed} (h : p.WellFormed) :
    ∃ i : Instruction, i.listed = p := by
  obtain ⟨form, os⟩ := p
  have hf : form ∈ Form.all := h.exists_form
  simp only [Form.all, List.mem_cons, List.not_mem_nil, or_false] at hf
  -- one case for each form, in the order of `Form.all`
  rcases hf with rfl | rfl | rfl | rfl | rfl | rfl | rfl | rfl | rfl | rfl | rfl | rfl | rfl |
    rfl | rfl | rfl | rfl | rfl | rfl | rfl | rfl | rfl | rfl | rfl | rfl | rfl | rfl | rfl |
    rfl | rfl | rfl | rfl | rfl | rfl
  · exact h.of_plain (i := .clear) rfl
  · exact h.of_plain (i := .ret) rfl
  · exact h.of_address .jump fun _ => rfl
  · exact h.of_address .call fun _ => rfl
  · exact h.of_byte .skipIfByte fun _ _ => rfl
  · exact h.of_byte .skipUnlessByte fun _ _ => rfl
  · exact h.of_registers .skipIfEqual fun _ _ => rfl
  · exact h.of_byte .set fun _ _ => rfl
  · exact h.of_byte .increase fun _ _ => rfl
  · exact h.of_registers (.combine .move) fun _ _ => rfl
  · exact h.of_registers (.combine .or) fun _ _ => rfl
  · exact h.of_registers (.combine .and) fun _ _ => rfl
  · exact h.of_registers (.combine .xor) fun _ _ => rfl
  · exact h.of_registers (.combine .add) fun _ _ => rfl
  · exact h.of_registers (.combine .sub) fun _ _ => rfl
  · exact h.of_registers (.combine .shiftRight) fun _ _ => rfl
  · exact h.of_registers (.combine .subFrom) fun _ _ => rfl
  · exact h.of_registers (.combine .shiftLeft) fun _ _ => rfl
  · exact h.of_registers .skipUnlessEqual fun _ _ => rfl
  · exact h.of_address .setIndex fun _ => rfl
  · exact h.of_address .jumpOffset fun _ => rfl
  · exact h.of_byte .random fun _ _ => rfl
  · exact h.of_rows .draw fun _ _ _ => rfl
  · exact h.of_register .skipIfKey fun _ => rfl
  · exact h.of_register .skipUnlessKey fun _ => rfl
  · exact h.of_register .getDelay fun _ => rfl
  · exact h.of_register .awaitKey fun _ => rfl
  · exact h.of_register .setDelay fun _ => rfl
  · exact h.of_register .setSound fun _ => rfl
  · exact h.of_register .addIndex fun _ => rfl
  · exact h.of_register .pointGlyph fun _ => rfl
  · exact h.of_register .writeDecimal fun _ => rfl
  · exact h.of_register .save fun _ => rfl
  · exact h.of_register .restore fun _ => rfl

/-! ## Reading is the inverse of writing -/

theorem ofWord_eq_ok {w : UInt16} {p : Listed} :
    ofWord w = .ok p ↔ ∃ i, Instruction.decode w = .ok i ∧ i.listed = p := by
  rw [ofWord]
  cases Instruction.decode w with
  | ok i => simp [Except.map]
  | error e => simp [Except.map]

theorem ofWord_eq_error {w : UInt16} {e : Error} :
    ofWord w = .error e ↔ Instruction.decode w = .error e := by
  rw [ofWord]
  cases Instruction.decode w with
  | ok i => simp [Except.map]
  | error d => simp [Except.map]

theorem ofWord_eq_ok_iff {w : UInt16} {p : Listed} :
    ofWord w = .ok p ↔ p.WellFormed ∧ p.number = w.toNat := by
  rw [ofWord_eq_ok]
  constructor
  · rintro ⟨i, hi, rfl⟩
    rw [Instruction.decode_eq_ok_iff] at hi
    rw [Instruction.number_listed, ← Instruction.toNat_toWord, hi]
    exact ⟨i.wellFormed_listed, rfl⟩
  · rintro ⟨hp, hw⟩
    obtain ⟨i, rfl⟩ := hp.exists_listed
    rw [Instruction.number_listed, ← Instruction.toNat_toWord] at hw
    exact ⟨i, Instruction.decode_eq_ok_iff.2 (UInt16.toNat_inj.1 hw), rfl⟩

theorem ofWord_eq_error_iff {w : UInt16} {e : Error} : ofWord w = .error e ↔
    e = .unknownInstruction w ∧ ∀ p : Listed, p.WellFormed → p.number ≠ w.toNat := by
  rw [ofWord_eq_error]
  constructor
  · intro h
    refine ⟨(Instruction.decode_eq_error_iff.1 h).2, fun p hp hw => ?_⟩
    have hok := ofWord_eq_ok_iff.2 ⟨hp, hw⟩
    rw [ofWord_eq_error.2 h] at hok
    cases hok
  · rintro ⟨rfl, h⟩
    refine Instruction.decode_eq_error_iff.2 ⟨fun i hi => h _ i.wellFormed_listed ?_, rfl⟩
    rw [Instruction.number_listed, ← Instruction.toNat_toWord, hi]

theorem WellFormed.number_lt {p : Listed} (h : p.WellFormed) : p.number < 65536 := by
  obtain ⟨i, rfl⟩ := h.exists_listed
  rw [Instruction.number_listed]
  exact i.code_lt

end Listed

/-- **Reading a word is the inverse of writing one.** A word is read as a form with operands if
and only if these are well formed and the word is their number. So no two words are read alike,
every well-formed instruction is read from the word that it is written as, and a word is refused,
with that word as the reason, exactly when nothing well formed is written that way. -/
theorem decode_inverts_writing :
    (∀ w p, Listed.ofWord w = .ok p ↔ p.WellFormed ∧ p.number = w.toNat) ∧
    (∀ v w p, Listed.ofWord v = .ok p → Listed.ofWord w = .ok p → v = w) ∧
    (∀ p : Listed, p.WellFormed →
      p.number < 65536 ∧ Listed.ofWord (UInt16.ofNat p.number) = .ok p) ∧
    ∀ w e, Listed.ofWord w = .error e ↔
      e = .unknownInstruction w ∧ ∀ p : Listed, p.WellFormed → p.number ≠ w.toNat := by
  refine ⟨fun w p => Listed.ofWord_eq_ok_iff, fun v w p hv hw => ?_, fun p hp => ?_,
    fun w e => Listed.ofWord_eq_error_iff⟩
  · rw [Listed.ofWord_eq_ok_iff] at hv hw
    exact UInt16.toNat_inj.1 (hv.2.symm.trans hw.2)
  · refine ⟨hp.number_lt, Listed.ofWord_eq_ok_iff.2 ⟨hp, ?_⟩⟩
    rw [UInt16.toNat_ofNat_of_lt' hp.number_lt]

/-- `0xDAB5` draws five rows at VA and VB. Operands that carry into the next digit have the same
number, and are not what is read; `0x0ABC` is nothing that can be written. -/
theorem decode_inverts_writing_of_draw :
    Listed.ofWord 0xDAB5 = .ok ⟨"_DXYN", [("x", 0xA), ("y", 0xB), ("n", 5)]⟩ ∧
    (⟨"_DXYN", [("x", 9), ("y", 0x1B), ("n", 5)]⟩ : Listed).number = 0xDAB5 ∧
    Listed.ofWord 0xDAB5 ≠ .ok ⟨"_DXYN", [("x", 9), ("y", 0x1B), ("n", 5)]⟩ ∧
    ∀ p : Listed, p.WellFormed → p.number ≠ 0x0ABC := by
  obtain ⟨hok, -, haccept, herror⟩ := decode_inverts_writing
  refine ⟨(haccept ⟨"_DXYN", [("x", 0xA), ("y", 0xB), ("n", 5)]⟩ (by decide)).2, by decide,
    fun h => ?_, ?_⟩
  · exact absurd ((hok _ _).1 h).1 (by decide)
  · exact ((herror 0x0ABC (.unknownInstruction 0x0ABC)).1 (by rfl)).2

end ChipEight
