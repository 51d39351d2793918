import FetchStage.Proofs.Observers
import FetchStage.Proofs.Predictor.Learning
import FetchStage.Proofs.Resolver.Queue
import FetchStage.Proofs.Simulator.Run

/-! # Predictions come from the ground truth

Unless facts are scheduled from outside, every fact in the queue reports a record of the ground truth, so the predictor
has learned from the ground truth alone. A hit then names the outcome of the branch it was looked up for.
-/
namespace FetchStage.Simulator
variable {σ : Type} [MemoryPort σ] {truth : BranchTable} {s t : Simulator σ} {r : CycleRecord}

/-- The queue reports the ground truth, and the predictor has learned from nothing else. -/
structure Taught (truth : BranchTable) (s : Simulator σ) : Prop where
  truth_eq : s.truth = truth
  learned : s.engine.predictor.Learned truth
  queued : ∀ x ∈ s.resolver.queue, truth.Reports x.2
  steady : ∀ before after, s.stats.transition before after ≠ 0 → (before, after) ∈ Counter.steady

omit [MemoryPort σ] in
theorem taught_withPort {c : Config} {port : σ} {image : Image} (h : withPort c port image truth = .ok s) :
    s.Taught truth := by
  obtain ⟨_, _, h⟩ := bind_eq_ok.mp h
  cases h
  refine ⟨rfl, Predictor.learned_initial, by simp, ?_⟩
  intro before after hne
  exact absurd (by cases before <;> cases after <;> rfl) hne

theorem Stepped.resolution_eq (h : s.Stepped t r) : r.inputs.resolution = (s.resolver.take s.cycle).1 := by
  rw [h.inputs]
  rfl

theorem Stepped.mem_of_presented (h : s.Stepped t r) (hr : r.inputs.resolution.resolved) :
    ∃ due, (due, r.inputs.resolution) ∈ s.resolver.queue := by
  rw [h.resolution_eq] at hr ⊢
  exact Resolver.mem_of_take_resolved hr

theorem Taught.presented (h : s.Taught truth) (hd : s.Stepped t r) (hr : r.inputs.resolution.resolved) :
    truth.Reports r.inputs.resolution := by
  obtain ⟨due, hm⟩ := hd.mem_of_presented hr
  exact h.queued _ hm

/-- A fact that a step leaves in the queue was there before, or is that of the branch just delivered. -/
theorem Stepped.mem_queue (h : s.Stepped t r) {x : Nat × Resolution} (hx : x ∈ t.resolver.queue) :
    x ∈ s.resolver.queue ∨ ∃ b, s.truth.lookup r.outputs.pc = some b ∧ x.2 = b.resolution := by
  obtain ⟨_, htaken⟩ | ⟨b, due, hb, hsched⟩ := h.resolver_cases
  · rw [htaken] at hx
    exact Or.inl (Resolver.mem_of_mem_take hx)
  · have hlook : s.truth.lookup r.outputs.pc = some b := by
      unfold deliveredBranch at hb
      split at hb
      · exact hb
      · cases hb
    rcases List.mem_cons.mp ((Resolver.scheduleAfter_perm hsched).mem_iff.mp hx) with rfl | hm
    · exact Or.inr ⟨b, hlook, rfl⟩
    · exact Or.inl (Resolver.mem_of_mem_take hm)

theorem Taught.learned_step (h : s.Taught truth) (hd : s.Stepped t r) : t.engine.predictor.Learned truth := by
  rw [hd.engine]
  cases hr : r.inputs.reset with
  | true =>
    simp only [Engine.next, hr, if_true]
    exact Predictor.learned_initial
  | false =>
    simp only [Engine.next, hr, Bool.false_eq_true, if_false]
    exact h.learned.update (h.presented hd)

omit [MemoryPort σ] in
theorem transition_of_recordTraining {i : Inputs} {e : Engine} {trained : Stats} {before after : Counter}
    (h : s.recordTraining i e = .ok trained) (hne : trained.transition before after ≠ 0) :
    s.stats.transition before after ≠ 0 ∨
    i.resolution.resolved ∧ i.reset = false ∧ before = s.engine.predictor.counter i.resolution.branchAddress ∧
      after = e.predictor.counter i.resolution.branchAddress := by
  unfold recordTraining at h
  split at h
  · rename_i hlive
    simp only [Bool.and_eq_true, Bool.not_eq_true'] at hlive
    rw [(Stats.train_eq_ok h).2] at hne
    split at hne
    · rename_i hcell
      exact Or.inr ⟨hlive.1, hlive.2, hcell.1, hcell.2⟩
    · exact Or.inl hne
  · cases h
    exact Or.inl hne

theorem Taught.steady_step (h : s.Taught truth) (hd : s.Stepped t r) {before after : Counter}
    (hne : t.stats.transition before after ≠ 0) : (before, after) ∈ Counter.steady := by
  obtain ⟨trained, htrain, hstats⟩ := hd.stats
  have hsame : t.stats.transition before after = trained.transition before after := by
    rw [Stats.observe_eq_ok hstats]
    rfl
  rw [hsame] at hne
  rcases transition_of_recordTraining htrain hne with hold | ⟨hres, hreset, rfl, rfl⟩
  · exact h.steady before after hold
  · obtain ⟨b, hb, hfact⟩ := h.presented hd hres
    obtain ⟨n, hn⟩ := h.learned.counter hb
    have hnext : t.engine.predictor = s.engine.predictor.train b.pc b.taken b.target := by
      rw [hd.engine]
      simp only [Engine.next, hreset, Bool.false_eq_true, if_false, hfact]
      rfl
    rw [hfact, hnext]
    change (s.engine.predictor.counter b.pc, (s.engine.predictor.train b.pc b.taken b.target).counter b.pc) ∈ _
    rw [Predictor.counter_train, hn, ← Counter.after_succ]
    exact Counter.after_steady b.taken n

theorem Taught.step (h : s.Taught truth) (hd : s.Stepped t r) : t.Taught truth := by
  refine ⟨?_, h.learned_step hd, ?_, fun _ _ => h.steady_step hd⟩
  · rw [hd.rest]
    exact h.truth_eq
  · intro x hx
    rcases hd.mem_queue hx with hm | ⟨b, hb, hfact⟩
    · exact h.queued x hm
    · rw [h.truth_eq] at hb
      obtain ⟨hslot, hpc⟩ := BranchTable.lookup_eq_some.mp hb
      exact ⟨b, hpc ▸ hslot, hfact⟩

theorem invariant_taught (truth : BranchTable) :
    Invariant (fun s : Simulator σ => s.Taught truth) (fun a => a = .step ∨ a = .reset) (fun _ => True) where
  step h hd _ := h.step hd
  reset h := ⟨h.truth_eq, h.learned, by simp [reset, Resolver.clear], h.steady⟩
  schedule ha := by simp at ha

theorem Taught.prediction (h : s.Taught truth) (hd : s.Stepped t r) (hv : r.outputs.prediction.valid) :
    ∃ b, truth.lookup r.outputs.request.address = some b ∧ r.outputs.prediction.taken = b.taken ∧
      r.outputs.prediction.target = b.target := by
  rw [hd.outputs] at hv ⊢
  rw [Engine.outputs_request]
  cases hr : r.inputs.reset with
  | true => simp [Engine.outputs, hr] at hv
  | false =>
    simp only [Engine.outputs, hr, Bool.false_eq_true, if_false] at hv ⊢
    exact h.learned.predict hv

/-- As long as no fact is scheduled from outside, each hit gives the direction and the target that the ground truth has
for the requested address, each slot in use holds its record of the ground truth, and counters move one way only. -/
theorem perform_predictions (c : Config) (port : σ) (image : Image) (truth : BranchTable) (actions : List Action)
    (rs : List CycleRecord) (s t : Simulator σ) (hs : withPort c port image truth = .ok s)
    (ha : ∀ a ∈ actions, a = .step ∨ a = .reset) (h : s.perform actions = .ok (t, rs)) :
    (∀ r ∈ rs, r.outputs.prediction.valid →
      ∃ b, truth.lookup r.outputs.request.address = some b ∧ r.outputs.prediction.taken = b.taken ∧
        r.outputs.prediction.target = b.target) ∧
    t.engine.predictor.Learned truth ∧
    ∀ before after, t.stats.transition before after ≠ 0 → (before, after) ∈ Counter.steady := by
  obtain ⟨ht, hstarts⟩ := (invariant_taught truth).perform h (taught_withPort hs) ha fun _ _ => trivial
  refine ⟨?_, ht.learned, ht.steady⟩
  intro r hm hv
  obtain ⟨u, v, hu, hd⟩ := hstarts r hm
  exact hu.prediction hd hv

/-- A loop with a branch of either direction, and a reset on the way: there are hits, and all five transitions occur. -/
theorem perform_predictions_loop :
    ∃ s t rs, ofProgram {} #[0x13, 0x63, 0xe3, 0x93] (.ofRecords [⟨0x4, false, 0x40⟩, ⟨0x8, true, 0⟩]) = .ok s ∧
      s.perform (List.replicate 16 .step ++ .reset :: List.replicate 12 .step) = .ok (t, rs) ∧
      (∃ r ∈ rs, r.outputs.prediction.valid) ∧ (∀ x ∈ Counter.steady, t.stats.transition x.1 x.2 ≠ 0) ∧
      (∀ r ∈ rs, r.outputs.prediction.valid →
        ∃ b, (BranchTable.ofRecords [⟨0x4, false, 0x40⟩, ⟨0x8, true, 0⟩]).lookup r.outputs.request.address = some b ∧
          r.outputs.prediction.taken = b.taken ∧ r.outputs.prediction.target = b.target) ∧
      t.engine.predictor.Learned (.ofRecords [⟨0x4, false, 0x40⟩, ⟨0x8, true, 0⟩]) ∧
      ∀ before after, t.stats.transition before after ≠ 0 → (before, after) ∈ Counter.steady := by
  have htrial : (trial {} #[0x13, 0x63, 0xe3, 0x93] (.ofRecords [⟨0x4, false, 0x40⟩, ⟨0x8, true, 0⟩])
      (List.replicate 16 .step ++ .reset :: List.replicate 12 .step)).any fun x =>
        x.2.any (·.outputs.prediction.valid) && Counter.steady.all fun y => x.1.stats.transition y.1 y.2 != 0 := by
    decide +kernel
  obtain ⟨s, t, rs, hs, h, htest⟩ := exists_of_trial htrial
  simp only [Bool.and_eq_true, List.any_eq_true, List.all_eq_true, bne_iff_ne] at htest
  exact ⟨s, t, rs, hs, h, htest.1, htest.2, perform_predictions {} _ _ _ _ rs s t hs (by decide) h⟩

end FetchStage.Simulator
