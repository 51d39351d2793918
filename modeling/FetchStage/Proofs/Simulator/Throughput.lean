import FetchStage.Proofs.Simulator.Delivery
import FetchStage.Proofs.Stats.Balance

/-! # Throughput

With a fixed latency, an answer ends an access that has been asked for in that many cycles, and no cycle serves two accesses. So
the cycles pay for the answers: the progress of the access in flight is a credit that a cycle raises by one at most. It is spent
when the answer comes, and lost when the access is abandoned. The engine stores or drops an answer once at most, and delivers only
what it has stored.
-/
namespace FetchStage

namespace LatencyPort
variable {p q : LatencyPort} {latency : Nat} {r : Request} {a : Response}

/-- Cycles that the access in flight has had. -/
def progress (latency : Nat) (p : LatencyPort) : Nat := (p.inFlight.map fun f => latency - f.remaining).getD 0

theorem progress_of_idle (h : p.inFlight = none) : p.progress latency = 0 := by
  rw [progress, h]
  rfl

theorem progress_of_inFlight {f : InFlight} (h : p.inFlight = some f) : p.progress latency = latency - f.remaining := by
  rw [progress, h]
  rfl

theorem progress_current {f : InFlight} {u : LatencyPort} (ht : p.timing = .fixed latency)
    (h : p.current r.address = .ok (f, u)) : latency - f.remaining ≤ p.progress latency := by
  obtain ⟨hf, _⟩ | hstart := current_cases h
  · exact Nat.le_of_eq (progress_of_inFlight hf).symm
  · obtain ⟨cycles, timing, haccess, rfl, _⟩ := start_eq_ok hstart
    rw [ht] at haccess
    cases haccess
    simp only
    omega

theorem progress_respond (ht : p.timing = .fixed latency) (h : p.respond r = .ok (a, q)) :
    q.progress latency + latency * a.ready.toNat ≤ p.progress latency + 1 := by
  unfold respond at h
  split at h
  · obtain ⟨⟨f, u⟩, hc, h⟩ := bind_eq_ok.mp h
    have hprogress := progress_current ht hc
    simp only at h
    split at h
    · cases h
      rw [progress_of_idle rfl, Bool.toNat_true]
      omega
    · cases h
      rw [progress_of_inFlight rfl, Bool.toNat_false]
      simp only
      omega
  · cases h
    rw [progress_of_idle rfl, Bool.toNat_false]
    omega

end LatencyPort

theorem Engine.answered_le_ready (e : Engine) (i : Inputs) :
    (e.outputs i).wrote.toNat + (e.outputs i).dropped.toNat ≤ i.memory.ready.toNat := by
  cases hr : i.reset with
  | true => simp [outputs, hr]
  | false =>
    simp only [outputs, hr, Bool.false_eq_true, if_false, receives]
    cases i.memory.ready <;> cases e.state.requestPending <;> cases e.buffer.acceptsWrite <;> decide

theorem Stats.Balanced.retrained {s t : Stats} {held : Nat} {rs : List CycleRecord} (h : s.Balanced held rs)
    (ht : t = { s with transitions := t.transitions }) : t.Balanced held rs := by
  rw [ht]
  exact { h with }

namespace Simulator
variable {s t : Simulator LatencyPort} {r : CycleRecord} {rs : List CycleRecord} {latency : Nat}

/-- The statistics balance, and the cycles have paid for every answer and for the progress of the access in flight. -/
structure Budgeted (latency : Nat) (rs : List CycleRecord) (s : Simulator LatencyPort) : Prop where
  settled : s.engine.buffer.Settled
  timing : s.port.timing = .fixed latency
  balanced : s.stats.Balanced s.engine.buffer.count rs
  paid : latency * (s.stats.wordsBuffered + s.stats.droppedResponses) + s.port.progress latency ≤ s.stats.cycles

theorem Budgeted.step (h : s.Budgeted latency rs) (hs : s.Stepped t r) : t.Budgeted latency (rs ++ [r]) := by
  obtain ⟨trained, htrained, hstats⟩ := hs.observed
  have hrecord := hs.record_eq
  refine ⟨?_, LatencyPort.timing_respond_fixed h.timing hs.memory, ?_, ?_⟩
  · rw [hs.engine]
    exact Engine.next_settled h.settled r.inputs
  · rw [hrecord] at hstats ⊢
    rw [hs.engine]
    exact (h.balanced.retrained htrained).observe h.settled hstats
  · have hpaid := h.paid
    have hprogress := LatencyPort.progress_respond h.timing hs.memory
    have hanswered := s.engine.answered_le_ready r.inputs
    rw [← hs.outputs] at hanswered
    have hcost := Nat.mul_le_mul_left latency hanswered
    rw [Stats.observe_eq_ok hstats, htrained]
    simp only [Nat.mul_add] at hpaid hcost ⊢
    omega

theorem Budgeted.perform {actions : List Action} (h : s.Budgeted latency []) (hp : s.perform actions = .ok (t, rs)) :
    t.Budgeted latency rs := by
  apply perform_induction (P := fun _ rs t => t.Budgeted latency rs) h _ _ _ hp
  · intro actions rs u t r _ hu hstep
    exact hu.step (stepped_of_step hstep)
  · intro actions rs u _ hu
    exact ⟨hu.settled, hu.timing, hu.balanced, hu.paid⟩
  · intro actions rs u t due fact slot _ hu hsched
    rw [schedule_eq_ok hsched]
    exact ⟨hu.settled, hu.timing, hu.balanced, hu.paid⟩

theorem budgeted_ofProgram {c : Config} {program : Array Word} {truth : BranchTable}
    (h : ofProgram c program truth = .ok s) (hc : c.memory.controller = .simple) : s.Budgeted c.memory.latency [] := by
  obtain ⟨_, _, h⟩ := bind_eq_ok.mp h
  cases h
  exact ⟨Buffer.settled_empty, by simp [MemoryConfig.timing, hc], Stats.balanced_nil, by simp [LatencyPort.progress]⟩

theorem latency_pos_of_validate {c : Config} (h : c.validate = .ok ()) : 0 < c.memory.latency :=
  (Config.validate_eq_ok.mp h).latency

/-- Whatever is called, each word that is stored or dropped has taken the cycles of a whole access, and only stored words are
delivered. -/
theorem perform_throughput (c : Config) (program : Array Word) (truth : BranchTable) (actions : List Action)
    (rs : List CycleRecord) (s t : Simulator LatencyPort) (hc : c.memory.controller = .simple)
    (hs : ofProgram c program truth = .ok s) (h : s.perform actions = .ok (t, rs)) :
    t.stats.cycles = rs.length ∧
    c.memory.latency * (t.stats.wordsBuffered + t.stats.droppedResponses) ≤ t.stats.cycles ∧
    t.stats.wordsDelivered ≤ t.stats.wordsBuffered ∧
    t.stats.wordsDelivered ≤ t.stats.cycles / c.memory.latency := by
  have hbudget := (budgeted_ofProgram hs hc).perform h
  have hpaid := hbudget.paid
  have hwords := hbudget.balanced.words
  have hdelivered : t.stats.wordsDelivered ≤ t.stats.wordsBuffered := by omega
  have hlatency : 0 < c.memory.latency := by
    obtain ⟨_, hvalid, _⟩ := bind_eq_ok.mp hs
    exact latency_pos_of_validate hvalid
  refine ⟨hbudget.balanced.cycles, by omega, hdelivered, ?_⟩
  rw [Nat.le_div_iff_mul_le hlatency, Nat.mul_comm]
  calc c.memory.latency * t.stats.wordsDelivered
      ≤ c.memory.latency * (t.stats.wordsBuffered + t.stats.droppedResponses) :=
        Nat.mul_le_mul_left _ (Nat.le_add_right_of_le hdelivered)
    _ ≤ t.stats.cycles := by omega

/-- A consumer that takes nothing, so that the ninth answer is dropped; and accesses of three cycles, of which a redirect and a
reset abandon one each. -/
theorem perform_throughput_abandoned :
    (∃ s t rs, ofProgram { consumer := ⟨20, 0, 0⟩ } #[0x13, 0x93] .empty = .ok s ∧
      s.perform (List.replicate 10 .step) = .ok (t, rs) ∧ t.stats.wordsBuffered = 8 ∧ t.stats.droppedResponses = 1 ∧
      1 * (t.stats.wordsBuffered + t.stats.droppedResponses) ≤ t.stats.cycles) ∧
    ∃ c s t rs, c = { memory := { latency := 3 }, consumer := ⟨1, 5, 1⟩ } ∧ c.memory.controller = .simple ∧
      ofProgram c #[0x13, 0x93] .empty = .ok s ∧
      s.perform (.schedule 8 ⟨true, true, 0x40, 0xC⟩ :: List.replicate 14 .step ++ .reset :: List.replicate 12 .step) =
        .ok (t, rs) ∧
      t.port.accesses = 9 ∧ t.stats.wordsBuffered = 7 ∧ t.stats.wordsDelivered = 3 ∧ t.stats.cycles = 26 ∧
      3 * (t.stats.wordsBuffered + t.stats.droppedResponses) ≤ t.stats.cycles ∧
      t.stats.wordsDelivered ≤ t.stats.cycles / 3 := by
  constructor
  · have htrial : (trial { consumer := ⟨20, 0, 0⟩ } #[0x13, 0x93] .empty (List.replicate 10 .step)).any fun x =>
        x.1.stats.wordsBuffered == 8 && x.1.stats.droppedResponses == 1 := by decide +kernel
    obtain ⟨s, t, rs, hs, h, htest⟩ := exists_of_trial htrial
    simp only [Bool.and_eq_true, beq_iff_eq] at htest
    exact ⟨s, t, rs, hs, h, htest.1, htest.2, (perform_throughput _ _ _ _ rs s t rfl hs h).2.1⟩
  · have htrial : (trial { memory := { latency := 3 }, consumer := ⟨1, 5, 1⟩ } #[0x13, 0x93] .empty
        (.schedule 8 ⟨true, true, 0x40, 0xC⟩ :: List.replicate 14 .step ++ .reset :: List.replicate 12 .step)).any fun x =>
          x.1.port.accesses == 9 && x.1.stats.wordsBuffered == 7 && x.1.stats.wordsDelivered == 3 &&
            x.1.stats.cycles == 26 := by decide +kernel
    obtain ⟨s, t, rs, hs, h, htest⟩ := exists_of_trial htrial
    simp only [Bool.and_eq_true, beq_iff_eq] at htest
    obtain ⟨⟨⟨haccesses, hbuffered⟩, hdelivered⟩, hcycles⟩ := htest
    obtain ⟨_, hpaid, _, hrate⟩ := perform_throughput _ _ _ _ rs s t rfl hs h
    exact ⟨_, s, t, rs, rfl, rfl, hs, h, haccesses, hbuffered, hdelivered, hcycles, hpaid, hrate⟩

end Simulator

end FetchStage
