import FetchStage.Predictor.Basic
import Mathlib.Data.List.Induction

/-! # What a predictor knows

The contents of both tables are a function of the branches resolved so far. For a lookup only the facts matter whose
address has the same index bits: the last of them decides hit and target, and all of them, aliases included, move one
direction level between zero and three.
-/
namespace FetchStage

/-- Bits 9 to 2. -/
def Address.indexBits (a : Address) : BitVec 8 := a.extractLsb' 2 8

theorem Address.slot_eq_iff {a b : Address} : a.slot = b.slot ↔ a.indexBits = b.indexBits := by
  rw [Fin.ext_iff, BitVec.toNat_inj.symm]
  simp only [slot, Slot.wrap, wordIndex, indexBits, BitVec.extractLsb'_toNat, Nat.shiftRight_eq_div_pow]

namespace History

/-- The facts on the index of `a`, oldest first. -/
def sharing (facts : List Resolution) (a : Address) : List Resolution :=
  facts.filter fun f => f.branchAddress.indexBits = a.indexBits

def level (facts : List Resolution) : Nat :=
  facts.foldl (fun n f => if f.taken then min (n + 1) 3 else n - 1) 1

/-- The lookup of `a` as the resolved branches determine it. -/
def predict (facts : List Resolution) (a : Address) : Prediction :=
  match (sharing facts a).getLast? with
  | some f => if f.branchAddress = a then ⟨true, decide (2 ≤ level (sharing facts a)), f.target⟩ else .miss
  | none => .miss

theorem sharing_concat (facts : List Resolution) (f : Resolution) (a : Address) :
    sharing (facts ++ [f]) a =
      if f.branchAddress.indexBits = a.indexBits then sharing facts a ++ [f] else sharing facts a := by
  unfold sharing
  split <;> simp [*]

theorem level_concat (facts : List Resolution) (f : Resolution) :
    level (facts ++ [f]) = if f.taken then min (level facts + 1) 3 else level facts - 1 := by
  simp [level]

end History

theorem Counter.bits_train (c : Counter) (taken : Bool) :
    (c.train taken).bits.val = if taken then min (c.bits.val + 1) 3 else c.bits.val - 1 := by
  cases c <;> cases taken <;> rfl

theorem Counter.predictsTaken_eq (c : Counter) : c.predictsTaken = decide (2 ≤ c.bits.val) := by
  cases c <;> rfl

namespace Predictor
open History

def ofFacts (facts : List Resolution) : Predictor :=
  facts.foldl (fun p f => p.train f.branchAddress f.taken f.target) initial

theorem ofFacts_concat (facts : List Resolution) (f : Resolution) :
    ofFacts (facts ++ [f]) = (ofFacts facts).train f.branchAddress f.taken f.target := by
  simp [ofFacts]

/-- The target cache remembers the last fact of each index. -/
theorem cached_ofFacts (facts : List Resolution) (a : Address) :
    (ofFacts facts).targets.slots.get a.slot =
      (sharing facts a).getLast?.map fun f => ⟨f.branchAddress, f.target⟩ := by
  induction facts using List.reverseRecOn with
  | nil => exact Vector.getElem_replicate _
  | append_singleton facts f ih =>
    rw [ofFacts_concat, sharing_concat]
    simp only [train, TargetCache.update, get_overwrite]
    by_cases hs : f.branchAddress.slot = a.slot
    · rw [if_pos hs, if_pos (Address.slot_eq_iff.mp hs), List.getLast?_concat, Option.map_some]
    · rw [if_neg hs, if_neg (fun h => hs (Address.slot_eq_iff.mpr h))]
      exact ih

theorem counter_ofFacts (facts : List Resolution) (a : Address) :
    ((ofFacts facts).counter a).bits.val = level (sharing facts a) := by
  induction facts using List.reverseRecOn with
  | nil =>
    have h : initial.counter a = .reset := Vector.getElem_replicate _
    exact congrArg (fun c => c.bits.val) h
  | append_singleton facts f ih =>
    rw [ofFacts_concat, sharing_concat]
    simp only [counter, train, get_overwrite] at ih ⊢
    by_cases hs : f.branchAddress.slot = a.slot
    · rw [if_pos hs, if_pos (Address.slot_eq_iff.mp hs), hs, Counter.bits_train, level_concat, ih]
    · rw [if_neg hs, if_neg (fun h => hs (Address.slot_eq_iff.mpr h))]
      exact ih

theorem predict_ofFacts (facts : List Resolution) (a : Address) (enabled : Bool) :
    (ofFacts facts).predict a enabled = if enabled then History.predict facts a else .miss := by
  cases enabled with
  | false => rfl
  | true =>
    simp only [predict, TargetCache.lookup, cached_ofFacts, History.predict, if_true]
    cases h : (sharing facts a).getLast? with
    | none => rfl
    | some f =>
      simp only [Option.map_some]
      by_cases hf : f.branchAddress = a
      · simp [hf, Counter.predictsTaken_eq, counter_ofFacts]
      · simp [hf]

end Predictor

end FetchStage
