/-! # Counts of bounded width

Cycles, latencies and counters are kept below `2 ^ 64`, and signed literals between `-2 ^ 63` and
`2 ^ 63 - 1`. An operation whose result would leave its range reports the operation instead.
-/
namespace FetchStage

inductive Overflow where
  | add
  | multiply
  | negate
  deriving DecidableEq, Repr

def Overflow.message : Overflow → String
  | .add => "attempt to add with overflow"
  | .multiply => "attempt to multiply with overflow"
  | .negate => "attempt to negate with overflow"

/-- A sequence succeeds when its parts do, one after the other. -/
theorem bind_eq_ok {ε α β : Type} {x : Except ε α} {f : α → Except ε β} {b : β} :
    x >>= f = .ok b ↔ ∃ a, x = .ok a ∧ f a = .ok b := by
  cases x with
  | error e => simp [bind, Except.bind]
  | ok a => simp [bind, Except.bind]

theorem bind_eq_error {ε α β : Type} {x : Except ε α} {f : α → Except ε β} {e : ε} :
    x >>= f = .error e ↔ x = .error e ∨ ∃ a, x = .ok a ∧ f a = .error e := by
  cases x with
  | error e => simp [bind, Except.bind]
  | ok a => simp [bind, Except.bind]

namespace Count

abbrev limit : Nat := Nat.pow 2 64

def add (m n : Nat) : Except Overflow Nat :=
  if m + n < limit then .ok (m + n) else .error .add

def mul (m n : Nat) : Except Overflow Nat :=
  if m * n < limit then .ok (m * n) else .error .multiply

def succ (n : Nat) : Except Overflow Nat := add n 1

/-- One more when `b` holds. -/
def tally (n : Nat) (b : Bool) : Except Overflow Nat := add n b.toNat

theorem add_eq_ok_iff {m n k : Nat} : add m n = .ok k ↔ k = m + n ∧ m + n < limit := by
  unfold add
  split <;> grind

theorem succ_eq_ok_iff {n k : Nat} : succ n = .ok k ↔ k = n + 1 ∧ n + 1 < limit := add_eq_ok_iff

theorem tally_eq_ok_iff {n k : Nat} {b : Bool} : tally n b = .ok k ↔ k = n + b.toNat ∧ n + b.toNat < limit :=
  add_eq_ok_iff

theorem succ_of_lt {n : Nat} (h : n + 1 < limit) : succ n = .ok (n + 1) := by
  simp [succ, add, h]

end Count

namespace Literal

abbrev least : Int := -Int.pow 2 63
abbrev beyond : Nat := Nat.pow 2 63

/-- Only the least literal has no opposite. -/
def negate (i : Int) : Except Overflow Int :=
  if i = least then .error .negate else .ok (-i)

end Literal

end FetchStage
