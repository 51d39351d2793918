/-! # Finite binary numbers

A finite double is a sign and `significand * 2 ^ exponent`. Decoding it to integers leaves its decimal rendering to
exact arithmetic.
-/
namespace FetchStage.Decimal

structure Binary where
  negative : Bool
  significand : Nat
  exponent : Int
  deriving DecidableEq

abbrev hiddenBit : Nat := Nat.pow 2 52

abbrev leastExponent : Int := -1074

/-- The value of a double; infinities and the undefined value have none. -/
def ofFloat? (x : Float) : Option Binary :=
  let bits := x.toBits.toNat
  let negative := bits / Nat.pow 2 63 == 1
  let biased := bits / Nat.pow 2 52 % Nat.pow 2 11
  let fraction := bits % Nat.pow 2 52
  if biased = 2047 then none
  else if biased = 0 then some ⟨negative, fraction, leastExponent⟩
  else some ⟨negative, hiddenBit + fraction, leastExponent + (biased - 1 : Nat)⟩

/-- The nearest integer to `num / den`; a half goes to the even neighbour. -/
def roundDiv (num den : Nat) : Nat :=
  let q := num / den
  let r := num % den
  if 2 * r < den then q
  else if den < 2 * r then q + 1
  else q + q % 2

end FetchStage.Decimal
