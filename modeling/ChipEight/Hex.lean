/-!
# Hexadecimal numerals

Addresses and instruction words are shown in base sixteen: in lowercase where an error
names one, in uppercase where the log lists one. Either way a numeral has at least the
width its place asks for, filled up with zeros on the left, and more digits when the
number needs them.
-/

namespace ChipEight.Hex

/-- The lowercase digits of `n`, most significant first, at least `width` of them. -/
def digits (width n : Nat) : List Char :=
  let ds := Nat.toDigits 16 n
  List.replicate (width - ds.length) '0' ++ ds

/-- The numeral of `n` in lowercase, padded to `width`. -/
def lower (width n : Nat) : String := String.ofList (digits width n)

/-- The numeral of `n` in uppercase, padded to `width`. -/
def upper (width n : Nat) : String := String.ofList ((digits width n).map Char.toUpper)

/-- Bytes as one numeral, two digits each, in the order given. -/
def ofBytes (bs : List UInt8) : String :=
  String.ofList (bs.flatMap fun b => digits 2 b.toNat)

end ChipEight.Hex
