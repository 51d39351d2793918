import FetchStage.Proofs.Assembly.Branches
import FetchStage.Proofs.Branch.Table
import FetchStage.Proofs.Engine.Contract
import FetchStage.Proofs.Simulator.Bench
import FetchStage.Proofs.Simulator.Delivery
import FetchStage.Proofs.Simulator.Learning

/-! # Runs that keep the contract

The facts that the engine samples come from the queue, and the queue is fed from the ground truth. If the targets there
are word aligned, so is every address that a run meets, and no cycle has anything for the checker to report. The ground
truth of an assembled source is of this kind when its branches and jumps go to labels.
-/
namespace FetchStage

theorem Address.aligned_ofIndex (n : Nat) : (ofIndex n).aligned := by
  rw [aligned_iff, ofIndex, BitVec.toNat_ofNat]
  omega

namespace BranchTable
variable {t : BranchTable}

def Aligned (t : BranchTable) : Prop := ∀ i b, t.entry i = some b → b.target.aligned

theorem aligned_empty : empty.Aligned := by
  intro i b hb
  have hnone : empty.entry i = none := Vector.getElem_replicate _
  rw [hnone] at hb
  cases hb

theorem Aligned.insert (h : t.Aligned) {r : BranchRecord} (hr : r.target.aligned) : (t.insert r).Aligned := by
  intro i b hb
  simp only [entry, BranchTable.insert, get_overwrite] at hb
  split at hb
  · cases hb
    exact hr
  · exact h i b hb

theorem aligned_ofRecords {rs : List BranchRecord} (h : ∀ r ∈ rs, r.target.aligned) : (ofRecords rs).Aligned :=
  ofRecords_induction aligned_empty fun _ r hr ht => ht.insert (h r hr)

theorem Aligned.lookup (h : t.Aligned) {pc : Address} {b : BranchRecord} (hb : t.lookup pc = some b) :
    b.target.aligned :=
  h pc.wordIndex b (lookup_eq_some.mp hb).1

end BranchTable

namespace Simulator
variable {σ : Type} [MemoryPort σ] {s t : Simulator σ} {r : CycleRecord}

/-- Every address that the simulator may still meet is word aligned, and the checker has seen nothing. -/
structure Orderly (s : Simulator σ) : Prop where
  engine : s.engine.Aligned
  settled : s.engine.buffer.Settled
  queued : ∀ x ∈ s.resolver.queue, x.2.Aligned
  truth : s.truth.Aligned
  violations : s.checker.violations = #[]

omit [MemoryPort σ] in
theorem orderly_withPort {c : Config} {port : σ} {image : Image} {truth : BranchTable}
    (h : withPort c port image truth = .ok s) (ht : truth.Aligned) : s.Orderly := by
  obtain ⟨_, _, h⟩ := bind_eq_ok.mp h
  cases h
  exact ⟨Engine.aligned_initial, Buffer.settled_empty, by simp, ht, rfl⟩

theorem Orderly.presented (h : s.Orderly) (hd : s.Stepped t r) : r.inputs.resolution.Aligned := by
  intro hr
  obtain ⟨due, hm⟩ := hd.mem_of_presented hr
  exact h.queued _ hm hr

theorem Orderly.violations_eq_nil (h : s.Orderly) (hd : s.Stepped t r) : r.violations = [] := by
  rw [CycleRecord.violations, hd.outputs, h.engine.breaches_eq_nil h.settled (h.presented hd)]
  rfl

theorem Orderly.step (h : s.Orderly) (hd : s.Stepped t r) : t.Orderly := by
  have hnext := h.engine.next (h.presented hd)
  refine ⟨?_, ?_, ?_, ?_, ?_⟩
  · rw [hd.engine]
    exact ⟨hnext.address, hnext.predictor⟩
  · rw [hd.engine]
    exact Engine.next_settled h.settled r.inputs
  · intro x hx
    rcases hd.mem_queue hx with hm | ⟨b, hb, hfact⟩
    · exact h.queued x hm
    · rw [hfact]
      intro _
      exact h.truth.lookup hb
  · rw [hd.rest]
    exact h.truth
  · rw [hd.checker, Checker.observe, h.violations, h.violations_eq_nil hd]
    rfl

/-- A run in which no cycle breaks the contract is not cut short. -/
theorem runFor_of_quiet {P : Simulator σ → Prop}
    (hstep : ∀ {s t : Simulator σ} {r : CycleRecord}, P s → s.Stepped t r → P t ∧ r.violations = [])
    {n : Nat} {v : Option Violation} (h : s.runFor n = .ok (t, v)) (hs : P s) :
    P t ∧ v = none ∧ t.cycle = s.cycle + n := by
  induction n generalizing s with
  | zero =>
    cases h
    exact ⟨hs, rfl, rfl⟩
  | succ n ih =>
    obtain ⟨⟨u, r⟩, hone, h⟩ := bind_eq_ok.mp h
    have hd := stepped_of_step hone
    obtain ⟨hu, hquiet⟩ := hstep hs hd
    have hverdict : u.verdict r = none := by
      unfold verdict
      split
      · rw [hquiet]
        rfl
      · rfl
    simp only [hverdict] at h
    obtain ⟨ht, hv, hcycle⟩ := ih h hu
    refine ⟨ht, hv, ?_⟩
    have hu := hd.cycle_succ
    omega

theorem ofProgram_fresh {c : Config} {program : Array Word} {truth : BranchTable} {s : Simulator LatencyPort}
    (h : ofProgram c program truth = .ok s) : s.port.image = ⟨program, c.memory.fill⟩ ∧ s.cycle = 0 := by
  obtain ⟨_, _, h⟩ := bind_eq_ok.mp h
  cases h
  exact ⟨rfl, rfl⟩

/-- Orderly, over a port that answers with the words of the image, as the scoreboard expects them. -/
structure Sound (image : Image) (s : Simulator LatencyPort) : Prop where
  orderly : s.Orderly
  faithful : s.Faithful image
  port_image : s.port.image = image

theorem Sound.step {image : Image} {s t : Simulator LatencyPort} (h : s.Sound image) (hd : s.Stepped t r) :
    t.Sound image ∧ r.violations = [] := by
  obtain ⟨hport, hserves⟩ := serves_of_stepped h.port_image hd
  exact ⟨⟨h.orderly.step hd, h.faithful.step hd hserves, hport⟩, h.orderly.violations_eq_nil hd⟩

end Simulator

namespace Bench
variable {σ ω : Type} [MemoryPort σ] [Observer ω]

/-- The run reaches its budget, and neither the checker nor the scoreboard has anything to report. -/
def RunsClean (b : Bench σ ω) (budget : Nat) : Prop :=
  (b.run budget).2 = .done budget ∧ (b.run budget).1.sim.checker.violations = #[] ∧
    (b.run budget).1.sim.scoreboard.disagreed = 0 ∧ (b.run budget).1.sim.scoreboard.recorded = []

theorem runsClean_of_aligned {c : Config} {program : Array Word} {truth : BranchTable} {b : Bench LatencyPort ω}
    {budget : Nat} (hs : Simulator.ofProgram c program truth = .ok b.sim)
    (ho : ∀ o, (b.run budget).2 ≠ .overflow o) (ht : truth.Aligned) : b.RunsClean budget := by
  obtain ⟨hport, hzero⟩ := Simulator.ofProgram_fresh hs
  have hsound : b.sim.Sound ⟨program, c.memory.fill⟩ :=
    ⟨Simulator.orderly_withPort hs ht, Simulator.faithful_withPort hs, hport⟩
  obtain ⟨last, ⟨o, _, hb⟩ | ⟨v, hrun, hb⟩⟩ := b.run_follows budget
  · exact absurd (by rw [hb]) (ho o)
  · obtain ⟨hlast, rfl, hcycle⟩ := Simulator.runFor_of_quiet Simulator.Sound.step hrun hsound
    have hran : last.sim.cycle - b.sim.cycle = budget := by omega
    unfold RunsClean
    rw [hb, hran]
    exact ⟨rfl, hlast.orderly.violations, hlast.faithful.disagreed, hlast.faithful.recorded⟩

open Assembly in
/-- A run over any ground truth with word aligned targets reaches its budget with nothing to report, also when a violation
would stop it, unless a count overflows. The branches of an assembled source are such a ground truth if they all go to
labels. -/
theorem run_clean (c : Config) (program : Array Word) (truth : BranchTable) (b : Bench LatencyPort ω) (budget : Nat)
    (hs : Simulator.ofProgram c program truth = .ok b.sim) (ho : ∀ o, (b.run budget).2 ≠ .overflow o) :
    ((∀ i r, truth.entry i = some r → r.target.toNat % 4 = 0) → b.RunsClean budget) ∧
    ∀ text words, assemble text = .ok words → Labelled (sourceLines text) → program = words.toArray →
      truth = .ofRecords (staticBranches words) → b.RunsClean budget := by
  constructor
  · intro ht
    exact runsClean_of_aligned hs ho fun i r hr => Address.aligned_iff.mpr (ht i r hr)
  · rintro text words h hl _ rfl
    apply runsClean_of_aligned hs ho
    apply BranchTable.aligned_ofRecords
    intro r hr
    obtain ⟨n, hn⟩ := target_of_labelled h hl hr
    rw [hn]
    exact Address.aligned_ofIndex n

open Assembly in
/-- A loop over a row buffer, with a slow consumer that also stalls and with resolutions that come late. -/
theorem run_clean_loop :
    ∃ (c : Config) (text : List Char) (words : List Word) (b : Bench LatencyPort WaveDump),
      c = { memory := { controller := .dram }, consumer := ⟨2, 7, 2⟩, resolution := ⟨3⟩ } ∧
      text = "a: jal b\nnop\nb: bne x1, x0, a".toList ∧ assemble text = .ok words ∧ Labelled (sourceLines text) ∧
      Simulator.ofProgram c words.toArray (.ofRecords (staticBranches words)) = .ok b.sim ∧ b.sim.stopOnViolation ∧
      (∀ o, (b.run 40).2 ≠ .overflow o) ∧ (b.run 40).1.sim.stats.flushes ≠ 0 ∧ b.RunsClean 40 := by
  have htest : (Simulator.ofProgram { memory := { controller := .dram }, consumer := ⟨2, 7, 2⟩, resolution := ⟨3⟩ }
      #[0x8000ef, 0x13, 0xfe009ce3] (.ofRecords (staticBranches [0x8000ef, 0x13, 0xfe009ce3]))).toOption.any fun s =>
        s.stopOnViolation && (s.run 40).toOption.any fun x => x.1.stats.flushes != 0 := by decide +kernel
  obtain ⟨s, hs, htest⟩ := Simulator.exists_of_any htest
  rw [Bool.and_eq_true] at htest
  obtain ⟨hstop, htest⟩ := htest
  obtain ⟨⟨t, v⟩, hreturns, hflush⟩ := Simulator.exists_of_any htest
  obtain ⟨last, ⟨o, hrun, _⟩ | ⟨_, hrun, hb⟩⟩ := run_follows ({ sim := s } : Bench LatencyPort WaveDump) 40
  · rw [hreturns] at hrun
    cases hrun
  rw [hreturns] at hrun
  cases hrun
  have ho : ∀ o, (({ sim := s } : Bench LatencyPort WaveDump).run 40).2 ≠ .overflow o := by
    intro o
    rw [hb]
    cases v <;> simp [Outcome.ofVerdict]
  have hflush : (({ sim := s } : Bench LatencyPort WaveDump).run 40).1.sim.stats.flushes ≠ 0 := by
    rw [hb]
    exact bne_iff_ne.mp hflush
  have hlabelled : Labelled (sourceLines "a: jal b\nnop\nb: bne x1, x0, a".toList) := by decide +kernel
  exact ⟨_, _, [0x8000ef, 0x13, 0xfe009ce3], { sim := s }, rfl, rfl, rfl, hlabelled, hs, hstop, ho, hflush,
    (run_clean _ _ _ { sim := s } 40 hs ho).2 _ _ rfl hlabelled rfl rfl⟩

end Bench

end FetchStage
