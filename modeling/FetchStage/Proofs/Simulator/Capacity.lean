import FetchStage.Proofs.Memory.Latency
import FetchStage.Proofs.Observers
import FetchStage.Proofs.Resolver.Queue
import FetchStage.Proofs.Simulator.Run

/-! # Counts stay within the cycles

What the observers and the port have counted is at most the number of cycles. A step can then be refused only where time
itself, the latency of an access or a due cycle leaves its range. With a fixed latency and no facts from outside, a run
returns as long as the last due cycle is in range.
-/
namespace FetchStage

namespace Simulator
variable {σ : Type} {s t : Simulator σ} {r : CycleRecord}

/-- What the observers have counted is at most the cycles simulated. -/
structure Counted (s : Simulator σ) : Prop where
  stats : s.stats.Within s.cycle
  scoreboard : s.scoreboard.Within s.cycle

theorem counted_withPort {c : Config} {port : σ} {image : Image} {truth : BranchTable}
    (h : withPort c port image truth = .ok s) : s.Counted := by
  obtain ⟨_, _, h⟩ := bind_eq_ok.mp h
  cases h
  exact ⟨Stats.within_zero, Nat.le_refl 0, Nat.le_refl 0⟩

theorem Counted.training (h : s.Counted) (hn : s.cycle + 1 < Count.limit) (i : Inputs) (after : Engine) :
    ∃ trained, s.recordTraining i after = .ok trained := by
  unfold recordTraining
  dsimp only
  split
  · exact h.stats.train_returns hn _ _
  · exact ⟨_, rfl⟩

theorem Counted.trained (h : s.Counted) {i : Inputs} {after : Engine} {trained : Stats}
    (ht : s.recordTraining i after = .ok trained) :
    trained.Totals s.cycle ∧ ∀ x y, trained.transition x y ≤ s.cycle + 1 := by
  unfold recordTraining at ht
  dsimp only at ht
  split at ht
  · exact h.stats.train ht
  · cases ht
    exact ⟨h.stats.toTotals, fun x y => Nat.le_succ_of_le (h.stats.transitions x y)⟩

theorem feedback_returns
    (h : ∀ b, s.deliveredBranch r.outputs = some b → ∃ x, s.resolver.scheduleAfter r.cycle b.resolution = .ok x) :
    ∃ y, s.feedback r = .ok y := by
  unfold feedback
  cases hd : s.deliveredBranch r.outputs with
  | none => exact ⟨_, rfl⟩
  | some b =>
    obtain ⟨x, hx⟩ := h b hd
    exact ⟨_, bind_eq_ok.mpr ⟨x, hx, rfl⟩⟩

variable [MemoryPort σ]

theorem Counted.step (h : s.Counted) (hs : s.Stepped t r) : t.Counted := by
  obtain ⟨trained, htrain, hstats⟩ := hs.stats
  obtain ⟨htotals, htransitions⟩ := h.trained htrain
  have hkept : t.stats.transitions = trained.transitions := by rw [Stats.observe_eq_ok hstats]
  constructor
  · rw [hs.cycle_succ]
    refine ⟨htotals.observe hstats, ?_⟩
    intro x y
    rw [Stats.transition, hkept]
    exact htransitions x y
  · rw [hs.cycle_succ]
    exact h.scoreboard.observe hs.scoreboard

/-- Up to the queue, a cycle is refused only by the port or by the cycle counter. -/
theorem Counted.clock_returns (h : s.Counted) (hn : s.cycle + 1 < Count.limit) {a : Response} {port : σ}
    (hm : MemoryPort.respond s.port s.engine.request = .ok (a, port)) :
    ∃ u, s.clock = .ok (u, s.engine.record (s.inputs a (s.resolver.take s.cycle).1)) := by
  let i := s.inputs a (s.resolver.take s.cycle).1
  obtain ⟨trained, htrain⟩ := h.training hn i { s.engine.next i with cycle := s.cycle + 1 }
  obtain ⟨stats, hstats⟩ := (h.trained htrain).1.returns hn (s.engine.record i)
  obtain ⟨scoreboard, hboard⟩ := h.scoreboard.returns hn (s.engine.record i)
  exact ⟨_, bind_eq_ok.mpr ⟨_, hm, bind_eq_ok.mpr ⟨_, Engine.step_of_lt hn i, bind_eq_ok.mpr ⟨_, htrain,
    bind_eq_ok.mpr ⟨_, hstats, bind_eq_ok.mpr ⟨_, hboard, rfl⟩⟩⟩⟩⟩⟩

/-- The feedback sees the queue without the fact of the cycle, and the outcomes known before. -/
theorem clock_eq_ok {u : Simulator σ} (h : s.clock = .ok (u, r)) :
    r.cycle = s.cycle ∧ u.resolver = (s.resolver.take s.cycle).2 ∧
      ∀ o, u.deliveredBranch o = s.deliveredBranch o := by
  obtain ⟨⟨response, port⟩, _, h⟩ := bind_eq_ok.mp h
  obtain ⟨⟨engine, o⟩, _, h⟩ := bind_eq_ok.mp h
  obtain ⟨trained, _, h⟩ := bind_eq_ok.mp h
  obtain ⟨stats, _, h⟩ := bind_eq_ok.mp h
  obtain ⟨scoreboard, _, h⟩ := bind_eq_ok.mp h
  cases h
  exact ⟨rfl, rfl, fun _ => rfl⟩

/-- A step is refused only by the port, by the cycle counter or by the queue. -/
theorem Counted.step_returns (h : s.Counted) (hn : s.cycle + 1 < Count.limit) {a : Response} {port : σ}
    (hm : MemoryPort.respond s.port s.engine.request = .ok (a, port))
    (hq : ∀ b, s.deliveredBranch (s.engine.outputs (s.inputs a (s.resolver.take s.cycle).1)) = some b →
      ∃ x, (s.resolver.take s.cycle).2.scheduleAfter s.cycle b.resolution = .ok x) :
    ∃ t r, s.step = .ok (t, r) := by
  obtain ⟨u, hclock⟩ := h.clock_returns hn hm
  obtain ⟨hcycle, hresolver, hbranch⟩ := clock_eq_ok hclock
  have hfeed : ∃ y, u.feedback (s.engine.record (s.inputs a (s.resolver.take s.cycle).1)) = .ok y := by
    apply feedback_returns
    intro b hb
    rw [hresolver, hcycle]
    exact hq b ((hbranch _).symm.trans hb)
  obtain ⟨y, hfeed⟩ := hfeed
  exact ⟨_, _, bind_eq_ok.mpr ⟨_, hclock, bind_eq_ok.mpr ⟨y, hfeed, rfl⟩⟩⟩

/-- Every queued fact is due within the delay. -/
def Prompt (s : Simulator σ) : Prop := ∀ x ∈ s.resolver.queue, x.1 < s.cycle + s.resolver.delay

omit [MemoryPort σ] in
theorem Prompt.take (h : s.Prompt) {x : Nat × Resolution} (hx : x ∈ (s.resolver.take s.cycle).2.queue) :
    x.1 < s.cycle + (s.resolver.take s.cycle).2.delay := by
  rw [Resolver.delay_take]
  exact h x (Resolver.mem_of_mem_take hx)

theorem Stepped.delay_eq (hs : s.Stepped t r) : t.resolver.delay = s.resolver.delay := by
  obtain ⟨_, htaken⟩ | ⟨b, due, _, hsched⟩ := hs.resolver_cases
  · rw [htaken, Resolver.delay_take]
  · obtain ⟨_, _, hsched⟩ := bind_eq_ok.mp hsched
    rw [Resolver.delay_schedule hsched, Resolver.delay_take]

theorem Prompt.step (h : s.Prompt) (hs : s.Stepped t r) : t.Prompt := by
  have htake : ∀ x ∈ (s.resolver.take s.cycle).2.queue, x.1 < s.cycle + (s.resolver.take s.cycle).2.delay :=
    fun x hx => h.take hx
  have hdelay := s.resolver.delay_take s.cycle
  intro x hx
  rw [hs.cycle_succ, hs.delay_eq]
  obtain ⟨_, htaken⟩ | ⟨b, due, _, hsched⟩ := hs.resolver_cases
  · rw [htaken] at hx
    have hlt := htake x hx
    omega
  · rw [Resolver.scheduleAfter_of_lt htake hsched] at hx
    rcases List.mem_append.mp hx with hx | hx
    · have hlt := htake x hx
      omega
    · rw [List.mem_singleton.mp hx]
      simp only
      omega

/-- A cycle starts one access at most. -/
theorem Stepped.accesses_le {s t : Simulator LatencyPort} (hs : s.Stepped t r) (h : s.port.accesses ≤ s.cycle) :
    t.port.accesses ≤ t.cycle := by
  have hmore := LatencyPort.accesses_respond hs.memory
  rw [hs.cycle_succ]
  omega

/-- The port has started at most one access for each cycle, and its timing is fixed. -/
structure Paced (latency : Nat) (s : Simulator LatencyPort) : Prop where
  counted : s.Counted
  timing : s.port.timing = .fixed latency
  accesses : s.port.accesses ≤ s.cycle

theorem Paced.step {latency : Nat} {s t : Simulator LatencyPort} (h : s.Paced latency) (hs : s.Stepped t r) :
    t.Paced latency where
  counted := h.counted.step hs
  timing := LatencyPort.timing_respond_fixed h.timing hs.memory
  accesses := hs.accesses_le h.accesses

theorem Paced.respond_returns {latency : Nat} {s : Simulator LatencyPort} (h : s.Paced latency)
    (hn : s.cycle + 1 < Count.limit) : ∃ x, s.port.respond s.engine.request = .ok x := by
  have haccesses := h.accesses
  have hfixed : ¬s.port.timing.OutOfRange s.engine.request.address := by
    rw [h.timing]
    exact id
  exact LatencyPort.respond_returns (by omega) hfixed

theorem Paced.step_returns {latency : Nat} {s : Simulator LatencyPort} (h : s.Paced latency) (hp : s.Prompt)
    (hn : s.cycle + 1 + s.resolver.delay < Count.limit) : ∃ t r, s.step = .ok (t, r) := by
  obtain ⟨⟨a, port⟩, hm⟩ := h.respond_returns (by omega)
  apply h.counted.step_returns (by omega) hm
  intro b _
  apply Resolver.scheduleAfter_returns _ fun x => hp.take
  rw [Resolver.delay_take]
  omega

/-- Without facts from outside, steps return while the cycles and the due cycles are in range. -/
theorem Paced.perform_returns {latency : Nat} {s : Simulator LatencyPort} (h : s.Paced latency) (hp : s.Prompt) (n : Nat)
    (hn : s.cycle + n + s.resolver.delay < Count.limit) :
    ∃ t rs, s.perform (List.replicate n .step) = .ok (t, rs) := by
  induction n generalizing s with
  | zero => exact ⟨s, [], rfl⟩
  | succ n ih =>
    obtain ⟨u, r, hstep⟩ := h.step_returns hp (by omega)
    have hs := stepped_of_step hstep
    obtain ⟨t, rs, hrest⟩ := ih (h.step hs) (hp.step hs) (by rw [hs.cycle_succ, hs.delay_eq]; omega)
    exact ⟨t, r :: rs, perform_steps_succ.mpr ⟨u, r, rs, hstep, hrest, rfl⟩⟩

end Simulator

end FetchStage
