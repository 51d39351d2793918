import FetchStage.Proofs.Text.Digits

/-! # Signed literals

What the signed reader accepts is in the range of signed literals. In base sixteen the least of them has one spelling, apart
from zeros at the front.
-/
namespace FetchStage

namespace Literal

theorem least_eq : least = -(beyond : Int) := by decide

theorem negate_eq_error {i : Int} {o : Overflow} : negate i = .error o ↔ i = least ∧ o = .negate := by
  unfold negate
  split
  · rename_i hi
    simp [hi, eq_comm]
  · rename_i hi
    simp [hi]

end Literal

namespace Text
open Literal

/-- A second sign and the magnitude of the least number, after any zeros. -/
def LeastHex (digits : List Char) : Prop :=
  ∃ zeros, digits = '-' :: (List.replicate zeros '0' ++ "8000000000000000".toList)

theorem readDigits_beyond {cs : List Char} :
    readDigits 16 (Literal.beyond + 1) 0 cs = .ok Literal.beyond ↔
      ∃ zeros, cs = List.replicate zeros '0' ++ "8000000000000000".toList := by
  constructor
  · intro h
    obtain ⟨ds, rfl, hds⟩ : ∃ ds, cs = ds ++ List.replicate 15 '0' ∧
        readDigits 16 (Literal.beyond + 1) 0 ds = .ok 8 := exists_zeros_of_readDigits (by decide) h
    cases ds using List.reverseRecOn with
    | nil => cases hds
    | append_singleton es c =>
      obtain ⟨high, d, hhigh, hd, hsum, _⟩ := readDigits_concat.mp hds
      have hlt := digitIn_lt hd
      have hhigh0 : high = 0 := by omega
      have hd8 : d = 8 := by omega
      subst hhigh0
      subst hd8
      have hc : c = '8' := eq_digitChar hd (by decide)
      refine ⟨es.length, ?_⟩
      rw [hc, List.append_assoc, ← eq_zeros_of_readDigits hhigh]
      rfl
  · rintro ⟨zeros, rfl⟩
    rw [readDigits_append, readDigits_zeros (Nat.succ_pos _)]
    decide

theorem readMagnitude_eq_ok {base limit n : Nat} {cs : List Char} :
    readMagnitude base limit cs = .ok n ↔ cs ≠ [] ∧ readDigits base limit 0 cs = .ok n := by
  cases cs with
  | nil => simp [readMagnitude]
  | cons c cs => simp [readMagnitude]

/-- A minus sign is followed by a magnitude; other literals are read as unsigned ones. -/
theorem readSigned_cases {base : Nat} {cs : List Char} {i : Int} (h : readSigned base cs = some i) :
    (∃ ds n, cs = '-' :: ds ∧ readMagnitude base (Literal.beyond + 1) ds = .ok n ∧ i = -(n : Int)) ∨
      ∃ n : Nat, readUnsigned base Literal.beyond cs = .ok n ∧ i = n := by
  unfold readSigned at h
  split at h
  · rename_i ds
    cases hm : readMagnitude base (Literal.beyond + 1) ds with
    | error e =>
      rw [hm] at h
      cases h
    | ok n =>
      rw [hm] at h
      exact Or.inl ⟨ds, n, rfl, hm, (Option.some.inj h).symm⟩
  · cases hu : readUnsigned base Literal.beyond cs with
    | error e =>
      rw [hu] at h
      cases h
    | ok n =>
      rw [hu] at h
      exact Or.inr ⟨n, rfl, (Option.some.inj h).symm⟩

theorem readSigned_eq_least {cs : List Char} : readSigned 16 cs = some Literal.least ↔ LeastHex cs := by
  have hpos : 0 < Literal.beyond := by decide
  constructor
  · intro h
    obtain ⟨ds, n, rfl, hm, hn⟩ | ⟨n, _, hn⟩ := readSigned_cases h
    · have hbeyond : n = Literal.beyond := by
        rw [least_eq] at hn
        omega
      subst hbeyond
      obtain ⟨zeros, rfl⟩ := readDigits_beyond.mp (readMagnitude_eq_ok.mp hm).2
      exact ⟨zeros, rfl⟩
    · rw [least_eq] at hn
      omega
  · rintro ⟨zeros, rfl⟩
    rw [readSigned, readMagnitude_eq_ok.mpr ⟨by simp, readDigits_beyond.mpr ⟨zeros, rfl⟩⟩]
    rfl

theorem readDigits_lt {base limit value n : Nat} {cs : List Char} (hv : value < limit)
    (h : readDigits base limit value cs = .ok n) : n < limit := by
  cases cs using List.reverseRecOn with
  | nil =>
    cases h
    exact hv
  | append_singleton cs c =>
    obtain ⟨_, _, _, _, _, hlt⟩ := readDigits_concat.mp h
    exact hlt

theorem readUnsigned_lt {base limit n : Nat} {cs : List Char} (hl : 0 < limit)
    (h : readUnsigned base limit cs = .ok n) : n < limit := by
  unfold readUnsigned at h
  split at h
  · cases h
  · exact readDigits_lt hl (readMagnitude_eq_ok.mp h).2
  · exact readDigits_lt hl (readMagnitude_eq_ok.mp h).2

/-- What is read is a signed literal. -/
theorem readSigned_range {base : Nat} {cs : List Char} {i : Int} (h : readSigned base cs = some i) :
    Literal.least ≤ i ∧ i < Literal.beyond := by
  have hpos : 0 < Literal.beyond := by decide
  rw [least_eq]
  obtain ⟨ds, n, _, hm, rfl⟩ | ⟨n, hu, rfl⟩ := readSigned_cases h
  · have hlt := readDigits_lt (Nat.succ_pos _) (readMagnitude_eq_ok.mp hm).2
    omega
  · have hlt := readUnsigned_lt hpos hu
    omega

theorem afterHexMark_eq_some {cs hexed : List Char} :
    afterHexMark? cs = some hexed ↔ ∃ mark, (mark = 'x' ∨ mark = 'X') ∧ cs = '0' :: mark :: hexed := by
  constructor
  · intro h
    unfold afterHexMark? at h
    split at h
    · cases h
      exact ⟨'x', Or.inl rfl, rfl⟩
    · cases h
      exact ⟨'X', Or.inr rfl, rfl⟩
    · cases h
  · rintro ⟨mark, rfl | rfl, rfl⟩ <;> rfl

end Text

end FetchStage
