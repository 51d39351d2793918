import FetchStage.Simulator.Bench
import FetchStage.Proofs.Simulator.Run

/-! # The bench runs its simulator

Logs and observers do not change a run: a call on the bench leaves the simulator that the plain call returns, and
ends with its violation or its overflow.
-/
namespace FetchStage

/-- A call that returns, unless a violation has stopped it. -/
def Outcome.ofVerdict {α : Type} (value : α) : Option Violation → Outcome α
  | none => .done value
  | some v => .stopped v

namespace Bench
variable {σ ω : Type} [MemoryPort σ] [Observer ω]

theorem step_follows (b : Bench σ ω) :
    ∃ next : Bench σ ω, (∃ o, b.sim.step = .error o ∧ b.step = (next, .overflow o)) ∨
      ∃ r, b.sim.step = .ok (next.sim, r) ∧ b.step = (next, .ofVerdict r.outputs (next.sim.verdict r)) := by
  unfold Simulator.step step
  cases hclock : b.sim.clock with
  | error o => exact ⟨b, Or.inl ⟨o, rfl, rfl⟩⟩
  | ok x =>
    rcases x with ⟨s, r⟩
    simp only [bind, Except.bind]
    cases hfeed : s.feedback r with
    | error o => exact ⟨_, Or.inl ⟨o, rfl, rfl⟩⟩
    | ok y =>
      rcases y with ⟨t, delivered⟩
      simp only
      cases hv : t.verdict r <;>
        exact ⟨_, Or.inr ⟨r, rfl, congrArg (Prod.mk _) (congrArg (Outcome.ofVerdict r.outputs) hv.symm)⟩⟩

/-- Every observer is shown the cycle, whatever the verdict on it. -/
theorem step_of_ok {b : Bench σ ω} {t : Simulator σ} {r : CycleRecord} (h : b.sim.step = .ok (t, r)) :
    ∃ next : Bench σ ω, b.step = (next, .ofVerdict r.outputs (t.verdict r)) ∧ next.sim = t ∧
      next.observers = b.observers.map fun w => Observer.observe w r := by
  obtain ⟨⟨u, q⟩, hclock, h⟩ := bind_eq_ok.mp h
  obtain ⟨⟨v, delivered⟩, hfeed, h⟩ := bind_eq_ok.mp h
  cases h
  unfold step
  simp only [hclock, hfeed]
  cases t.verdict r <;> exact ⟨_, rfl, rfl, rfl⟩

theorem runFor_follows (n : Nat) (b : Bench σ ω) :
    ∃ last : Bench σ ω, (∃ o, b.sim.runFor n = .error o ∧ b.runFor n = (last, .overflow o)) ∨
      ∃ v, b.sim.runFor n = .ok (last.sim, v) ∧ b.runFor n = (last, .ofVerdict () v) := by
  induction n generalizing b with
  | zero => exact ⟨b, Or.inr ⟨none, rfl, rfl⟩⟩
  | succ n ih =>
    rw [Simulator.runFor, runFor]
    obtain ⟨next, ⟨o, hs, hb⟩ | ⟨r, hs, hb⟩⟩ := b.step_follows
    · rw [hs, hb]
      exact ⟨next, Or.inl ⟨o, rfl, rfl⟩⟩
    · rw [hs, hb]
      simp only [bind, Except.bind]
      cases hv : next.sim.verdict r with
      | some v => exact ⟨next, Or.inr ⟨some v, rfl, rfl⟩⟩
      | none => exact ih next

/-- A run of the bench ends as that of its simulator does, and counts the cycles of this call. -/
theorem run_follows (b : Bench σ ω) (budget : Nat) :
    ∃ last : Bench σ ω, (∃ o, b.sim.run budget = .error o ∧ b.run budget = (last, .overflow o)) ∨
      ∃ v, b.sim.run budget = .ok (last.sim, v) ∧
        b.run budget = (last, .ofVerdict (last.sim.cycle - b.sim.cycle) v) := by
  unfold Simulator.run run
  obtain ⟨last, ⟨o, hs, hb⟩ | ⟨v, hs, hb⟩⟩ := runFor_follows (budget - b.sim.cycle) b
  · simp only [hs, hb]
    exact ⟨last, Or.inl ⟨o, rfl, rfl⟩⟩
  · simp only [hs, hb]
    cases v with
    | none => exact ⟨last.say _, Or.inr ⟨none, rfl, rfl⟩⟩
    | some v => exact ⟨last.say _, Or.inr ⟨some v, rfl, rfl⟩⟩

theorem run_of_ok {b : Bench σ ω} {t : Simulator σ} {v : Option Violation} {budget : Nat}
    (h : b.sim.run budget = .ok (t, v)) : (∀ o, (b.run budget).2 ≠ .overflow o) ∧ (b.run budget).1.sim = t := by
  obtain ⟨last, ⟨o, hrun, _⟩ | ⟨_, hrun, hb⟩⟩ := b.run_follows budget
  · rw [h] at hrun
    cases hrun
  rw [h] at hrun
  cases hrun
  rw [hb]
  refine ⟨?_, rfl⟩
  cases v <;> simp [Outcome.ofVerdict]

end Bench

end FetchStage
