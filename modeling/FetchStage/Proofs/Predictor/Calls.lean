import FetchStage.Proofs.Predictor.History
import Mathlib.Data.List.DropRight

/-! # Calls on the predictor

Updates, enabled or not, and resets come in any order. The predictor then knows the branches of the enabled updates since the
last reset and nothing else: a slot's counter has seen all branches of its index, while its target is that of the last one.
-/
namespace FetchStage.Predictor
open History

inductive Call where
  | update (enabled : Bool) (address : Address) (taken : Bool) (target : Address)
  | reset
  deriving DecidableEq

def call (p : Predictor) : Call → Predictor
  | .update enabled address taken target => p.update enabled address taken target
  | .reset => initial

def Call.fact? : Call → Option Resolution
  | .update true address taken target => some ⟨true, taken, address, target⟩
  | .update false _ _ _ | .reset => none

/-- The enabled updates since the last reset, oldest first. -/
def known (calls : List Call) : List Resolution := (calls.rtakeWhile (· ≠ .reset)).filterMap Call.fact?

theorem known_reset (calls : List Call) : known (calls ++ [.reset]) = [] := by
  rw [known, List.rtakeWhile_concat_neg _ _ _ (by simp), List.filterMap_nil]

theorem known_update (calls : List Call) (enabled : Bool) (a : Address) (taken : Bool) (target : Address) :
    known (calls ++ [.update enabled a taken target]) =
      if enabled then known calls ++ [⟨true, taken, a, target⟩] else known calls := by
  rw [known, List.rtakeWhile_concat_pos _ _ _ (by simp), List.filterMap_append]
  cases enabled with
  | false => exact List.append_nil _
  | true => rfl

theorem calls_eq_ofFacts (calls : List Call) : calls.foldl call initial = ofFacts (known calls) := by
  induction calls using List.reverseRecOn with
  | nil => rfl
  | append_singleton calls c ih =>
    rw [List.foldl_append, ih]
    cases c with
    | reset =>
      rw [known_reset]
      rfl
    | update enabled a taken target =>
      rw [known_update]
      cases enabled with
      | false => rfl
      | true => exact (ofFacts_concat (known calls) ⟨true, taken, a, target⟩).symm

section Slots
variable (facts : List Resolution)

/-- The facts of slot `i`, counted modulo the table size, oldest first. -/
def atSlot (i : Nat) : List Resolution := facts.filter fun f => f.branchAddress.indexBits.toNat = i % slotCount

theorem slot_ofIndex (i : Nat) : (Address.ofIndex i).slot = Slot.wrap i := by
  have hword : (Address.ofIndex i).wordIndex % slotCount = i % slotCount := by
    rw [Address.wordIndex, Address.ofIndex, BitVec.toNat_ofNat]
    change 4 * i % 2 ^ 32 / 4 % 256 = i % 256
    omega
  exact Fin.ext hword

theorem sharing_ofIndex (i : Nat) : sharing facts (Address.ofIndex i) = atSlot facts i := by
  have hbits : (Address.ofIndex i).indexBits.toNat = i % slotCount := by
    rw [Address.indexBits, Address.ofIndex, BitVec.extractLsb'_toNat, BitVec.toNat_ofNat, Nat.shiftRight_eq_div_pow]
    change 4 * i % 2 ^ 32 / 2 ^ 2 % 2 ^ 8 = i % 256
    omega
  have hsame : (fun f : Resolution => decide (f.branchAddress.indexBits = (Address.ofIndex i).indexBits)) =
      fun f => decide (f.branchAddress.indexBits.toNat = i % slotCount) := by
    funext f
    rw [← hbits, decide_eq_decide]
    exact BitVec.toNat_inj.symm
  rw [sharing, atSlot, hsame]

theorem entry_ofFacts (i : Nat) :
    ((ofFacts facts).entry i).counter.bits.val = level (atSlot facts i) ∧
    ((ofFacts facts).entry i).cached = (atSlot facts i).getLast?.map fun f => ⟨f.branchAddress, f.target⟩ := by
  have hcounter := counter_ofFacts facts (Address.ofIndex i)
  have hcached := cached_ofFacts facts (Address.ofIndex i)
  rw [counter, slot_ofIndex, sharing_ofIndex] at hcounter
  rw [slot_ofIndex, sharing_ofIndex] at hcached
  exact ⟨hcounter, hcached⟩

end Slots

/-- What lookups and slots show after the facts. -/
structure Recalls (facts : List Resolution) (p : Predictor) : Prop where
  hit : ∀ a, (p.predict a true).valid ↔ ∃ f, (sharing facts a).getLast? = some f ∧ f.branchAddress = a
  outcome : ∀ a f, (sharing facts a).getLast? = some f → f.branchAddress = a →
    (p.predict a true).target = f.target ∧ ((p.predict a true).taken ↔ 2 ≤ level (sharing facts a))
  miss : ∀ a, ¬(p.predict a true).valid → p.predict a true = ⟨false, false, 0⟩
  disabled : ∀ a, p.predict a false = ⟨false, false, 0⟩
  counter : ∀ a, (p.counter a).bits.val = level (sharing facts a)
  entry : ∀ i, (p.entry i).counter.bits.val = level (atSlot facts i) ∧
    (p.entry i).cached = (atSlot facts i).getLast?.map fun f => ⟨f.branchAddress, f.target⟩

/-- Whatever calls are made, the predictor recalls the enabled updates since the last reset. -/
theorem calls_recalled (calls : List Call) : (calls.foldl call initial).Recalls (known calls) := by
  rw [calls_eq_ofFacts]
  have hpredict : ∀ a, (ofFacts (known calls)).predict a true = History.predict (known calls) a :=
    fun a => predict_ofFacts (known calls) a true
  constructor
  · intro a
    rw [hpredict, History.predict]
    cases h : (sharing (known calls) a).getLast? with
    | none => simp [Prediction.miss]
    | some f => by_cases hf : f.branchAddress = a <;> simp [hf, Prediction.miss]
  · intro a f hlast hf
    rw [hpredict, History.predict, hlast]
    simp [hf]
  · intro a hv
    rw [hpredict, History.predict] at hv ⊢
    cases h : (sharing (known calls) a).getLast? with
    | none => rfl
    | some f =>
      by_cases hf : f.branchAddress = a
      · simp [h, hf] at hv
      · simp only [if_neg hf]
        rfl
  · intro a
    exact predict_ofFacts (known calls) a false
  · exact counter_ofFacts (known calls)
  · exact entry_ofFacts (known calls)

/-- Two branches of one index: the second takes over the target, and both have moved the counter. -/
example :
    let p := [Call.update true 0x10 true 0x80, .update false 0x410 false 0, .update true 0x410 true 0x90].foldl call initial
    p.predict 0x10 true = .miss ∧ p.predict 0x410 true = ⟨true, true, 0x90⟩ ∧ p.counter 0x10 = .strongTaken := by
  decide +kernel

end FetchStage.Predictor
