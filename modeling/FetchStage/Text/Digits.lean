import FetchStage.Count

/-! # Numbers in text

Hexadecimal of fixed width, and readers for unsigned and signed integers in a base up to 36. A reader takes an
optional plus sign, refuses an empty digit string, and reports which of the three things went wrong first.
-/
namespace FetchStage.Text

def digitChar (upper : Bool) (d : Nat) : Char :=
  Char.ofNat (if d < 10 then '0'.toNat + d else (if upper then 'A' else 'a').toNat + (d - 10))

/-- The `width` lowest hexadecimal digits of `n`. -/
def hexDigits (upper : Bool) : Nat → Nat → List Char
  | 0, _ => []
  | width + 1, n => hexDigits upper width (n / 16) ++ [digitChar upper (n % 16)]

def hex (upper : Bool) (width n : Nat) : String := String.ofList (hexDigits upper width n)

def addressText (a : BitVec 32) : String := "0x" ++ hex false 8 a.toNat

def wordText (w : BitVec 32) : String := hex true 8 w.toNat

def padLeft (width : Nat) (s : String) : String :=
  String.ofList (List.replicate (width - s.length) ' ') ++ s

def padRight (width : Nat) (s : String) : String :=
  s ++ String.ofList (List.replicate (width - s.length) ' ')

/-- Value of a digit or letter, letters counting from ten. -/
def digitValue (c : Char) : Option Nat :=
  let n := c.toNat
  if '0' ≤ c ∧ c ≤ '9' then some (n - '0'.toNat)
  else if 'a' ≤ c ∧ c ≤ 'z' then some (n - 'a'.toNat + 10)
  else if 'A' ≤ c ∧ c ≤ 'Z' then some (n - 'A'.toNat + 10)
  else none

def digitIn (base : Nat) (c : Char) : Option Nat := (digitValue c).filter (· < base)

inductive NumberFault where
  | empty
  | badDigit
  | tooLarge
  deriving DecidableEq, Repr

def NumberFault.message : NumberFault → String
  | .empty => "cannot parse integer from empty string"
  | .badDigit => "invalid digit found in string"
  | .tooLarge => "number too large to fit in target type"

/-- Reads digits after a value already read; the result stays below `limit`. -/
def readDigits (base limit : Nat) : Nat → List Char → Except NumberFault Nat
  | value, [] => .ok value
  | value, c :: cs =>
    match digitIn base c with
    | none => .error .badDigit
    | some d => if value * base + d < limit then readDigits base limit (value * base + d) cs else .error .tooLarge

def readMagnitude (base limit : Nat) : List Char → Except NumberFault Nat
  | [] => .error .badDigit
  | c :: cs => readDigits base limit 0 (c :: cs)

def readUnsigned (base limit : Nat) : List Char → Except NumberFault Nat
  | [] => .error .empty
  | '+' :: cs => readMagnitude base limit cs
  | c :: cs => readMagnitude base limit (c :: cs)

def readSigned (base : Nat) : List Char → Option Int
  | '-' :: cs => (readMagnitude base (Literal.beyond + 1) cs).toOption.map fun n => -(n : Int)
  | cs => (readUnsigned base Literal.beyond cs).toOption.map fun n => (n : Int)

def afterHexMark? : List Char → Option (List Char)
  | '0' :: 'x' :: cs => some cs
  | '0' :: 'X' :: cs => some cs
  | _ => none

/-- A hexadecimal word, with or without its mark. -/
def readWord (cs : List Char) : Option (BitVec 32) :=
  (readUnsigned 16 (Nat.pow 2 32) ((afterHexMark? cs).getD cs)).toOption.map (BitVec.ofNat 32)

end FetchStage.Text
