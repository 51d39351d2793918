import FetchStage.Predictor.Basic
import FetchStage.Proofs.Branch.Table
import Mathlib.Logic.Function.Iterate

/-! # Learning from a branch table

A predictor that is only ever trained with records of one branch table holds, in each slot, nothing or that slot's
record, and the slot's counter has only moved in the record's direction. Its hits are then right, and a counter passes
through five transitions at most.
-/
namespace FetchStage

namespace Counter

/-- A counter that `n` outcomes of one direction have moved from its reset state. -/
def after (taken : Bool) (n : Nat) : Counter := (fun c => c.train taken)^[n] reset

theorem after_succ (taken : Bool) (n : Nat) : after taken (n + 1) = (after taken n).train taken :=
  Function.iterate_succ_apply' _ _ _

theorem after_taken (n : Nat) : after true (n + 2) = .strongTaken := by
  induction n with
  | zero => rfl
  | succ n ih => rw [after_succ, ih]; rfl

theorem after_not_taken (n : Nat) : after false (n + 1) = .strongNotTaken := by
  induction n with
  | zero => rfl
  | succ n ih => rw [after_succ, ih]; rfl

theorem predictsTaken_after (taken : Bool) (n : Nat) : (after taken (n + 1)).predictsTaken = taken := by
  cases taken with
  | false => rw [after_not_taken]; rfl
  | true =>
    cases n with
    | zero => rfl
    | succ n => rw [after_taken]; rfl

/-- The transitions of counters that have always moved in one direction. -/
def steady : List (Counter × Counter) :=
  [(.weakNotTaken, .weakTaken), (.weakTaken, .strongTaken), (.strongTaken, .strongTaken),
    (.weakNotTaken, .strongNotTaken), (.strongNotTaken, .strongNotTaken)]

theorem after_steady (taken : Bool) (n : Nat) : (after taken n, after taken (n + 1)) ∈ steady := by
  cases taken with
  | false =>
    cases n with
    | zero => decide
    | succ n => rw [after_not_taken, after_not_taken]; decide
  | true =>
    match n with
    | 0 => decide
    | 1 => decide
    | n + 2 => rw [after_taken, after_taken]; decide

end Counter

/-- The fact is the outcome that the table holds for its branch. -/
def BranchTable.Reports (t : BranchTable) (f : Resolution) : Prop :=
  ∃ b, t.slots.get b.pc.slot = some b ∧ f = b.resolution

namespace Predictor

/-- A slot is as at the start, or holds the table's record and a counter that this record alone has moved. -/
def Learned (t : BranchTable) (p : Predictor) : Prop :=
  ∀ i : Slot,
    p.targets.slots.get i = none ∧ p.directions.get i = .reset ∨
    ∃ b n, t.slots.get i = some b ∧ p.targets.slots.get i = some ⟨b.pc, b.target⟩ ∧
      p.directions.get i = Counter.after b.taken (n + 1)

variable {t : BranchTable} {p : Predictor} {b : BranchRecord}

theorem learned_initial : initial.Learned t :=
  fun _ => Or.inl ⟨Vector.getElem_replicate _, Vector.getElem_replicate _⟩

theorem Learned.counter (h : p.Learned t) (hb : t.slots.get b.pc.slot = some b) :
    ∃ n, p.counter b.pc = Counter.after b.taken n := by
  rcases h b.pc.slot with ⟨_, hc⟩ | ⟨d, n, hd, _, hc⟩
  · exact ⟨0, hc⟩
  · rw [hb] at hd
    cases hd
    exact ⟨n + 1, hc⟩

theorem counter_train {a target : Address} {taken : Bool} :
    (p.train a taken target).counter a = (p.counter a).train taken := by
  simp [Predictor.train, counter, get_overwrite]

theorem Learned.train (h : p.Learned t) (hb : t.slots.get b.pc.slot = some b) :
    (p.train b.pc b.taken b.target).Learned t := by
  obtain ⟨n, hn⟩ := h.counter hb
  intro i
  simp only [Predictor.train, TargetCache.update, get_overwrite]
  by_cases hi : b.pc.slot = i
  · subst hi
    refine Or.inr ⟨b, n, hb, by simp, ?_⟩
    rw [if_pos rfl, hn, Counter.after_succ]
  · simp only [hi, if_false]
    exact h i

theorem Learned.update (h : p.Learned t) {f : Resolution} (hf : f.resolved → t.Reports f) :
    (p.update f.resolved f.branchAddress f.taken f.target).Learned t := by
  unfold Predictor.update
  split
  · rename_i hr
    obtain ⟨b, hb, rfl⟩ := hf hr
    exact h.train hb
  · exact h

theorem Learned.predict (h : p.Learned t) {a : Address} {enabled : Bool} (hv : (p.predict a enabled).valid) :
    ∃ b, t.lookup a = some b ∧ (p.predict a enabled).taken = b.taken ∧ (p.predict a enabled).target = b.target := by
  cases enabled with
  | false => simp [Predictor.predict, Prediction.miss] at hv
  | true =>
    rcases h a.slot with ⟨hc, _⟩ | ⟨b, n, hb, hc, hn⟩
    · simp [Predictor.predict, TargetCache.lookup, hc, Prediction.miss] at hv
    · by_cases ha : b.pc = a
      · refine ⟨b, BranchTable.lookup_eq_some.mpr ⟨hb, ha⟩, ?_, ?_⟩
        · simp [Predictor.predict, TargetCache.lookup, hc, ha, Predictor.counter, hn, Counter.predictsTaken_after]
        · simp [Predictor.predict, TargetCache.lookup, hc, ha]
      · simp [Predictor.predict, TargetCache.lookup, hc, ha, Prediction.miss] at hv

end Predictor

end FetchStage
