import ChipEight.Instruction.Basic

/-!
# Instructions as text

A listing shows an instruction by its form and its operands. The form is an underscore and the
four digits of the word, with a letter for every digit that is an operand: X and Y for
registers, N for the digits of a number. The operands follow in braces, in decimal; a form
without operands stands alone.
-/

namespace ChipEight

/-- The form of an operation on two registers. -/
def Operation.form : Operation → String
  | .move => "_8XY0"
  | .or => "_8XY1"
  | .and => "_8XY2"
  | .xor => "_8XY3"
  | .add => "_8XY4"
  | .sub => "_8XY5"
  | .shiftRight => "_8XY6"
  | .subFrom => "_8XY7"
  | .shiftLeft => "_8XYE"

namespace Instruction

/-- The form of an instruction. -/
def form : Instruction → String
  | .clear => "_00E0"
  | .ret => "_00EE"
  | .jump _ => "_1NNN"
  | .call _ => "_2NNN"
  | .skipIfByte _ _ => "_3XNN"
  | .skipUnlessByte _ _ => "_4XNN"
  | .skipIfEqual _ _ => "_5XY0"
  | .set _ _ => "_6XNN"
  | .increase _ _ => "_7XNN"
  | .combine op _ _ => op.form
  | .skipUnlessEqual _ _ => "_9XY0"
  | .setIndex _ => "_ANNN"
  | .jumpOffset _ => "_BNNN"
  | .random _ _ => "_CXNN"
  | .draw _ _ _ => "_DXYN"
  | .skipIfKey _ => "_EX9E"
  | .skipUnlessKey _ => "_EXA1"
  | .getDelay _ => "_FX07"
  | .awaitKey _ => "_FX0A"
  | .setDelay _ => "_FX15"
  | .setSound _ => "_FX18"
  | .addIndex _ => "_FX1E"
  | .pointGlyph _ => "_FX29"
  | .writeDecimal _ => "_FX33"
  | .save _ => "_FX55"
  | .restore _ => "_FX65"

/-- The operands of an instruction, each under its letters, in the order of the form. The
shifts list both registers, although they use only the first. -/
def operands : Instruction → List (String × Nat)
  | .clear | .ret => []
  | .jump t | .call t | .setIndex t | .jumpOffset t => [("nnn", t.val)]
  | .skipIfByte x n | .skipUnlessByte x n | .set x n | .increase x n | .random x n =>
    [("x", x.val), ("nn", n.toNat)]
  | .skipIfEqual x y | .skipUnlessEqual x y | .combine _ x y => [("x", x.val), ("y", y.val)]
  | .draw x y rows => [("x", x.val), ("y", y.val), ("n", rows.val)]
  | .skipIfKey x | .skipUnlessKey x | .getDelay x | .awaitKey x | .setDelay x | .setSound x
  | .addIndex x | .pointGlyph x | .writeDecimal x | .save x | .restore x => [("x", x.val)]

/-- An instruction as a listing shows it. -/
def listing (i : Instruction) : String :=
  match i.operands with
  | [] => i.form
  | os =>
    i.form ++ " \x7b " ++ ", ".intercalate (os.map fun o => o.1 ++ ": " ++ toString o.2) ++ " \x7d"

end Instruction

end ChipEight
