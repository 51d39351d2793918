import FetchStage.Json.Fault
import FetchStage.Text.Digits
import FetchStage.Decimal.Shortest

/-! # Numbers

A whole number that fits is an integer. Any other number is a double: its digits are gathered into a significand of
64 bits, later digits are dropped, and the significand is scaled by powers of ten.
-/
namespace FetchStage.Json
open Text

inductive Number where
  | integer (i : Int)
  | real (x : Float)

/-- Positional from five leading zeros to sixteen digits before the point. -/
def realLayout : Decimal.Layout := ⟨-5, 15⟩

def Number.found : Number → Found
  | .integer i => .integer i
  | .real x => .real (realLayout.float x)

abbrev significandLimit : Nat := Nat.pow 2 64

/-- Gathers digits while the significand fits; the second result counts the digits gathered. -/
def gather (significand : Nat) (count : Nat) : List Char → Nat × Nat
  | [] => (significand, count)
  | c :: cs =>
    let next := significand * 10 + (digitIn 10 c).getD 0
    if next < significandLimit then gather next (count + 1) cs else (significand, count)

def powerOfTen (n : Nat) : Float := Float.ofScientific 1 false n

abbrev greatestPower : Nat := 308

def shrink (x : Float) (n : Nat) : Float :=
  if n ≤ greatestPower then x / powerOfTen n
  else if x == 0 then x
  else shrink (x / powerOfTen greatestPower) (n - greatestPower)
termination_by n
decreasing_by
  have h : (0 : Nat) < greatestPower := by decide
  exact Nat.sub_lt (by omega) h

def scale (significand : Nat) (exponent : Int) : Except Fault Float :=
  let x := significand.toUInt64.toFloat
  match exponent with
  | .ofNat n =>
    if n ≤ greatestPower then
      let y := x * powerOfTen n
      if y.isInf then .error .malformed else .ok y
    else if x == 0 then .ok x
    else .error .malformed
  | .negSucc n => .ok (shrink x (n + 1))

def someDigits (cs : List Char) : Except Fault (List Char × List Char) :=
  match cs with
  | [] => .error .incomplete
  | c :: _ => if c.isDigit then .ok (cs.takeWhile Char.isDigit, cs.dropWhile Char.isDigit) else .error .malformed

/-- Digits before the point: a zero stands alone. -/
def wholeDigits (cs : List Char) : Except Fault (List Char × List Char) := do
  let (digits, rest) ← someDigits cs
  if digits.head? = some '0' ∧ digits.length ≠ 1 then throw .malformed else return (digits, rest)

def digitsValue (cs : List Char) : Nat := cs.foldl (fun n c => n * 10 + (digitIn 10 c).getD 0) 0

def readExponent (cs : List Char) : Except Fault (Int × List Char) := do
  let (negative, cs) := match cs with
    | '+' :: rest => (false, rest)
    | '-' :: rest => (true, rest)
    | cs => (false, cs)
  let (digits, rest) ← someDigits cs
  return (if negative then -(digitsValue digits : Int) else digitsValue digits, rest)

def readDecimal (cs : List Char) : Except Fault ((Nat × Option Int) × List Char) := do
  let (whole, cs) ← wholeDigits cs
  let (significand, gathered) := gather 0 0 whole
  let dropped : Int := (whole.length : Int) - gathered
  let (significand, exponent, cs) ← match cs with
    | '.' :: rest => do
      let (fraction, rest) ← someDigits rest
      let (significand, gathered) := gather significand 0 fraction
      pure (significand, some (dropped - gathered), rest)
    | cs => pure (significand, if dropped = 0 then none else some dropped, cs)
  match cs with
  | 'e' :: rest | 'E' :: rest =>
    let (e, rest) ← readExponent rest
    return ((significand, some (exponent.getD 0 + e)), rest)
  | cs => return ((significand, exponent), cs)

/-- A number that starts with a digit or a minus sign. Zero with a sign, and whole numbers below the signed range, are
doubles. -/
def number (cs : List Char) : Except Fault (Number × List Char) := do
  let (negative, cs) := match cs with
    | '-' :: rest => (true, rest)
    | cs => (false, cs)
  let ((significand, exponent), rest) ← readDecimal cs
  match exponent, negative with
  | none, false => return (.integer significand, rest)
  | none, true =>
    if significand ≠ 0 ∧ significand ≤ Nat.pow 2 63 then return (.integer (-(significand : Int)), rest)
    else return (.real (-significand.toUInt64.toFloat), rest)
  | some e, negative =>
    let x ← scale significand e
    return (.real (if negative then -x else x), rest)

end FetchStage.Json
