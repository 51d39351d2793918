import FetchStage.Proofs.Memory.Port
import FetchStage.Proofs.Observers
import FetchStage.Proofs.Simulator.Run

/-! # Deliveries are the words of the image

If the port's answers come from the image that the scoreboard knows, then so does every buffered word, through waits,
redirects, abandoned accesses and resets. The scoreboard then counts each delivery as a match.
-/
namespace FetchStage

/-- An answer that is ready carries the word of the requested address. -/
def CycleRecord.Serves (image : Image) (r : CycleRecord) : Prop :=
  r.inputs.memory.ready → r.inputs.memory.data = image.read r.outputs.request.address

theorem CycleRecord.Serves.written {image : Image} {e : Engine} {i : Inputs} (h : (e.record i).Serves image)
    {x : BufferEntry} (hx : x ∈ (e.record i).written) : x.word = image.read x.address := by
  unfold CycleRecord.written at hx
  split at hx
  · rename_i hw
    rw [List.mem_singleton.mp hx]
    exact h (Engine.ready_of_wrote i hw)
  · simp at hx

namespace Simulator
variable {σ : Type} [MemoryPort σ]

omit [MemoryPort σ] in
theorem recordTraining_eq_ok {s : Simulator σ} {i : Inputs} {after : Engine} {trained : Stats}
    (h : s.recordTraining i after = .ok trained) : trained = { s.stats with transitions := trained.transitions } := by
  unfold recordTraining at h
  split at h
  · exact (Stats.train_eq_ok h).1
  · cases h
    rfl

/-- Training apart, the statistics have seen the cycle. -/
theorem Stepped.observed {s t : Simulator σ} {r : CycleRecord} (h : s.Stepped t r) :
    ∃ trained : Stats, trained = { s.stats with transitions := trained.transitions } ∧ trained.observe r = .ok t.stats := by
  obtain ⟨trained, htrain, hstats⟩ := h.stats
  exact ⟨trained, recordTraining_eq_ok htrain, hstats⟩

/-- Every buffered word is the image's, and so has been every delivered one. -/
structure Faithful (image : Image) (s : Simulator σ) : Prop where
  settled : s.engine.buffer.Settled
  held : ∀ x ∈ s.engine.buffer.toList, x.word = image.read x.address
  image_eq : s.scoreboard.image = image
  disagreed : s.scoreboard.disagreed = 0
  recorded : s.scoreboard.recorded = []
  agreed : s.scoreboard.agreed = s.stats.wordsDelivered

theorem Faithful.step {image : Image} {s t : Simulator σ} {r : CycleRecord} (h : s.Faithful image)
    (hs : s.Stepped t r) (hr : r.Serves image) : t.Faithful image := by
  have hrec := hs.record_eq
  have hdel : ∀ x ∈ r.delivered, x.word = s.scoreboard.image.read x.address := by
    intro x hx
    rw [hrec] at hx
    rw [h.image_eq]
    exact h.held x ((Engine.record_delivered_of_held r.inputs).subset hx)
  have hboard := Scoreboard.observe_of_agree hs.scoreboard hdel
  obtain ⟨trained, htrained, hstats⟩ := hs.observed
  refine ⟨?_, ?_, ?_, ?_, ?_, ?_⟩
  · rw [hs.engine]
    exact Engine.next_settled h.settled r.inputs
  · intro x hx
    rw [hs.engine] at hx
    rcases Engine.mem_toList_next r.inputs h.settled hx with hm | ⟨_, hm⟩
    · exact h.held x hm
    · rw [hrec] at hr
      exact hr.written hm
  · rw [hboard]
    exact h.image_eq
  · rw [hboard]
    exact h.disagreed
  · rw [hboard]
    exact h.recorded
  · rw [hboard, Stats.observe_eq_ok hstats, htrained, h.agreed]

theorem invariant_faithful (image : Image) :
    Invariant (fun s : Simulator σ => s.Faithful image) (fun _ => True) (CycleRecord.Serves image) where
  step h hs hr := h.step hs hr
  reset h := ⟨h.settled, h.held, h.image_eq, h.disagreed, h.recorded, h.agreed⟩
  schedule := by
    intro s t due slot fact _ h hs
    rw [schedule_eq_ok hs]
    exact ⟨h.settled, h.held, h.image_eq, h.disagreed, h.recorded, h.agreed⟩

omit [MemoryPort σ] in
theorem faithful_withPort {c : Config} {port : σ} {image : Image} {truth : BranchTable} {s : Simulator σ}
    (h : withPort c port image truth = .ok s) : s.Faithful image := by
  obtain ⟨_, _, h⟩ := bind_eq_ok.mp h
  cases h
  exact ⟨Buffer.settled_empty, by simp [Engine.initial], rfl, rfl, rfl, rfl⟩

theorem serves_of_stepped {image : Image} {s t : Simulator LatencyPort} {r : CycleRecord}
    (h : s.port.image = image) (hs : s.Stepped t r) : t.port.image = image ∧ r.Serves image := by
  obtain ⟨hi, hr⟩ := LatencyPort.serves_of_respond hs.memory
  rw [h] at hi hr
  refine ⟨hi, ?_⟩
  intro hready
  rw [hs.outputs, Engine.outputs_request]
  exact hr hready

theorem invariant_portImage (image : Image) :
    Invariant (fun s : Simulator LatencyPort => s.port.image = image) (fun _ => True) (fun _ => True) where
  step h hs _ := (serves_of_stepped h hs).1
  reset h := h
  schedule := by
    intro s t due slot fact _ h hs
    rw [schedule_eq_ok hs]
    exact h

def Clean (s : Simulator σ) : Prop :=
  s.scoreboard.disagreed = 0 ∧ s.scoreboard.recorded = [] ∧ s.scoreboard.agreed = s.stats.wordsDelivered

theorem clean_of_serves {c : Config} {port : σ} {image : Image} {truth : BranchTable} {s t : Simulator σ}
    {actions : List Action} {rs : List CycleRecord} (hs : withPort c port image truth = .ok s)
    (h : s.perform actions = .ok (t, rs)) (hr : ∀ r ∈ rs, r.Serves image) : t.Clean := by
  have hf := ((invariant_faithful image).perform h (faithful_withPort hs) (fun _ _ => trivial) hr).1
  exact ⟨hf.disagreed, hf.recorded, hf.agreed⟩

/-- Over any port whose ready answers carry the words of the image, no sequence of steps, resets and scheduled facts
makes the scoreboard record a mismatch. The port of a program is such a port with either controller. -/
theorem perform_clean (c : Config) (truth : BranchTable) (actions : List Action) :
    (∀ (σ : Type) [MemoryPort σ] (port : σ) (image : Image) (s t : Simulator σ) (rs : List CycleRecord),
      withPort c port image truth = .ok s → s.perform actions = .ok (t, rs) →
      (∀ r ∈ rs, r.Serves image) → t.Clean) ∧
    ∀ (program : Array Word) (s t : Simulator LatencyPort) (rs : List CycleRecord),
      ofProgram c program truth = .ok s → s.perform actions = .ok (t, rs) →
      (∀ r ∈ rs, r.Serves ⟨program, c.memory.fill⟩) ∧ t.Clean := by
  constructor
  · intro σ _ port image s t rs hs h hr
    exact clean_of_serves hs h hr
  · intro program s t rs hs h
    have hi : s.port.image = ⟨program, c.memory.fill⟩ := by
      obtain ⟨_, _, hs⟩ := bind_eq_ok.mp hs
      cases hs
      rfl
    have hserves : ∀ r ∈ rs, r.Serves ⟨program, c.memory.fill⟩ := by
      intro r hm
      have hstarts := ((invariant_portImage _).perform h hi (fun _ _ => trivial) (fun _ _ => trivial)).2
      obtain ⟨u, v, hu, hd⟩ := hstarts r hm
      exact (serves_of_stepped hu hd).2
    exact ⟨hserves, clean_of_serves hs h hserves⟩

/-- Ten cycles with a redirect to a misaligned target and a reset. -/
theorem perform_clean_redirect :
    ∃ s t rs, ofProgram {} #[0x13, 0x93, 0x113, 0x193] .empty = .ok s ∧
      s.perform [.step, .step, .step, .schedule 4 ⟨true, true, 0x40, 0x102⟩, .step, .step, .step, .reset, .step,
        .step, .step, .step] = .ok (t, rs) ∧
      t.stats.wordsDelivered = 4 ∧ t.stats.flushes = 1 ∧
      (∀ r ∈ rs, r.Serves ⟨#[0x13, 0x93, 0x113, 0x193], nop⟩) ∧ t.Clean := by
  have htrial : (trial {} #[0x13, 0x93, 0x113, 0x193] .empty
      [.step, .step, .step, .schedule 4 ⟨true, true, 0x40, 0x102⟩, .step, .step, .step, .reset, .step, .step, .step,
        .step]).any fun x => x.1.stats.wordsDelivered == 4 && x.1.stats.flushes == 1 := by decide +kernel
  obtain ⟨s, t, rs, hs, h, htest⟩ := exists_of_trial htrial
  simp only [Bool.and_eq_true, beq_iff_eq] at htest
  exact ⟨s, t, rs, hs, h, htest.1, htest.2, (perform_clean {} .empty _).2 _ s t rs hs h⟩

end Simulator

end FetchStage
