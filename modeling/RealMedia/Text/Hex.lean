import RealMedia.Bytes.Basic

/-! Hexadecimal text. -/

namespace RealMedia.Hex

/-- Lower case digits, at least `width` of them. -/
def lower (width n : Nat) : String :=
  let digits := Nat.toDigits 16 n
  .ofList (List.replicate (width - digits.length) '0' ++ digits)

def upper (width n : Nat) : String := (lower width n).map Char.toUpper

/-- Bytes in brackets, two upper case digits each. -/
def list (b : Bytes) : String :=
  "[" ++ ", ".intercalate (b.map fun x => upper 2 x.toNat) ++ "]"

end RealMedia.Hex
