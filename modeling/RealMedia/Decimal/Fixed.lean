/-! Quotients of natural numbers written with a fixed number of decimal places. -/

namespace RealMedia.Decimal

/-- The whole number nearest to `num / den`; a half goes to the even neighbour. -/
def roundDiv (num den : Nat) : Nat :=
  let q := num / den
  let twice := 2 * (num % den)
  if den < twice ∨ (twice = den ∧ q % 2 = 1) then q + 1 else q

def fixed (places num den : Nat) : String :=
  let unit := Nat.pow 10 places
  let scaled := roundDiv (num * unit) den
  let fraction := toString (scaled % unit)
  s!"{scaled / unit}." ++ .ofList (List.replicate (places - fraction.length) '0') ++ fraction

end RealMedia.Decimal
