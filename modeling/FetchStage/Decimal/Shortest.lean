import FetchStage.Decimal.Binary

/-! # Shortest decimal

The fewest decimal digits that still name a double among all doubles, and of those the nearest to it. The interval of
reals that round to `m * 2 ^ q` is compared with decimal grids in exact integer arithmetic.
-/
namespace FetchStage.Decimal

structure Digits where
  digits : Nat
  exponent : Int
  deriving DecidableEq, Repr

def decimalLt (a : Nat) (k : Int) (b : Nat) (q : Int) : Bool :=
  decide (a * Nat.pow 10 k.toNat * Nat.pow 2 (-q).toNat < b * Nat.pow 2 q.toNat * Nat.pow 10 (-k).toNat)

def binaryLt (b : Nat) (q : Int) (a : Nat) (k : Int) : Bool :=
  decide (b * Nat.pow 2 q.toNat * Nat.pow 10 (-k).toNat < a * Nat.pow 10 k.toNat * Nat.pow 2 (-q).toNat)

/-- Quarters of the last binary place from the value down to where rounding changes. Below a power of two the
neighbour is half as far. -/
def Binary.below (b : Binary) : Nat :=
  if b.significand = hiddenBit ∧ leastExponent < b.exponent then 1 else 2

/-- A decimal rounds to the double; the ends of its interval do so exactly when the significand is even. -/
def Binary.namedBy (b : Binary) (d : Digits) : Bool :=
  let q := b.exponent - 2
  let low := 4 * b.significand - b.below
  let high := 4 * b.significand + 2
  if b.significand % 2 = 0 then !decimalLt d.digits d.exponent low q && !binaryLt high q d.digits d.exponent
  else binaryLt low q d.digits d.exponent && decimalLt d.digits d.exponent high q

def Binary.over (b : Binary) (k : Int) : Nat × Nat :=
  (b.significand * Nat.pow 2 b.exponent.toNat * Nat.pow 10 (-k).toNat, Nat.pow 2 (-b.exponent).toNat * Nat.pow 10 k.toNat)

def Binary.leading (b : Binary) : Nat → Int → Int
  | 0, k => k
  | fuel + 1, k => if (b.over k).1 < (b.over k).2 then b.leading fuel (k - 1) else k

def Binary.onGrid (b : Binary) (k : Int) : Option Digits :=
  let (num, den) := b.over k
  let floor : Digits := ⟨num / den, k⟩
  let ceil : Digits := ⟨num / den + 1, k⟩
  match b.namedBy floor, b.namedBy ceil with
  | true, true => some ⟨roundDiv num den, k⟩
  | true, false => some floor
  | false, true => some ceil
  | false, false => none

def Digits.strip : Nat → Digits → Digits
  | 0, d => d
  | fuel + 1, d => if d.digits ≠ 0 ∧ d.digits % 10 = 0 then strip fuel ⟨d.digits / 10, d.exponent + 1⟩ else d

/-- Seventeen digits always suffice, so the search over coarser grids first ends. -/
def Binary.shortest (b : Binary) : Digits :=
  let lead := b.leading 700 309
  match (List.range 17).findSome? fun n => b.onGrid (lead - Int.ofNat n) with
  | some d => d.strip 20
  | none => ⟨0, 0⟩

structure Layout where
  /-- Exponents of the leading digit that are written positionally. -/
  positionalFrom : Int
  positionalTo : Int

private def zeros (n : Nat) : List Char := List.replicate n '0'

private def exponentText (e : Int) : List Char :=
  (if e < 0 then '-' else '+') :: (toString e.natAbs).toList

/-- Positional text has a digit on each side of the point; else one digit stands before the point, and the exponent
carries its sign. -/
def Layout.text (l : Layout) (d : Digits) : List Char :=
  let ds := (toString d.digits).toList
  let lead : Int := d.exponent + (ds.length - 1 : Nat)
  if l.positionalFrom ≤ lead ∧ lead ≤ l.positionalTo then
    if 0 ≤ d.exponent then ds ++ zeros d.exponent.toNat ++ ['.', '0']
    else if 0 ≤ lead then ds.take (lead.toNat + 1) ++ '.' :: ds.drop (lead.toNat + 1)
    else '0' :: '.' :: zeros (-lead - 1).toNat ++ ds
  else
    match ds with
    | [c] => c :: 'e' :: exponentText lead
    | c :: rest => c :: '.' :: rest ++ 'e' :: exponentText lead
    | [] => []

def Layout.float (l : Layout) (x : Float) : String :=
  match ofFloat? x with
  | some b =>
    let digits : Digits := if b.significand = 0 then ⟨0, 0⟩ else b.shortest
    (if b.negative then "-" else "") ++ String.ofList (l.text digits)
  | none => if x.isNaN then "NaN" else if x < 0 then "-inf" else "inf"

end FetchStage.Decimal
