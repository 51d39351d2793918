import FetchStage.Decimal.Binary

/-! # Fixed decimal places

The exact value of a double, rounded to a number of places with halves going to the even digit.
-/
namespace FetchStage.Decimal

/-- `significand * 2 ^ exponent * 10 ^ places`, rounded to an integer. -/
def Binary.scaled (b : Binary) (places : Nat) : Nat :=
  match b.exponent with
  | .ofNat e => b.significand * Nat.pow 2 e * Nat.pow 10 places
  | .negSucc e => roundDiv (b.significand * Nat.pow 10 places) (Nat.pow 2 (e + 1))

def placed (places n : Nat) : String :=
  let fraction := toString (n % Nat.pow 10 places)
  toString (n / Nat.pow 10 places) ++ "." ++
    String.ofList (List.replicate (places - fraction.length) '0') ++ fraction

def fixed (places : Nat) (x : Float) : String :=
  match ofFloat? x with
  | some b => (if b.negative then "-" else "") ++ placed places (b.scaled places)
  | none => if x.isNaN then "NaN" else if x < 0 then "-inf" else "inf"

end FetchStage.Decimal
