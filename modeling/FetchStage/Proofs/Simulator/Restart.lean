import FetchStage.Proofs.Consumer
import FetchStage.Proofs.Simulator.Capacity
import FetchStage.Proofs.Simulator.Delivery

/-! # A reset leaves nothing behind

After the cycle of a reset the engine is as at the start and the queue is empty. An access may still be in flight, but
the first request is not asserted and drops it. With a fixed latency the port remembers nothing else, so from there on
the simulator goes through the cycles of a fresh one, later in time, if the consumer is at the start of its pattern.
-/
namespace FetchStage

/-- The cycle as it would be `d` cycles later. -/
def CycleRecord.later (d : Nat) (r : CycleRecord) : CycleRecord := { r with cycle := d + r.cycle }

theorem Engine.next_withCycle (e : Engine) (n : Nat) (i : Inputs) :
    ({ e with cycle := n } : Engine).next i = { e.next i with cycle := n } := by
  unfold next
  cases i.reset <;> rfl

theorem Engine.next_of_reset {e : Engine} {i : Inputs} (h : i.reset) : e.next i = e.reset := if_pos h

namespace Simulator
variable {d latency : Nat} {s t u : Simulator LatencyPort} {r q : CycleRecord}

/-- The first simulator is where the second one was `d` cycles before. -/
structure Echoes (d : Nat) (s t : Simulator LatencyPort) : Prop where
  engine : s.engine = { t.engine with cycle := d + t.cycle }
  port : s.port.Alike t.engine.request t.port
  drive : ∀ n, s.consumer.drive (d + n) = t.consumer.drive n
  resolver : s.resolver.Later d t.resolver
  truth : s.truth = t.truth
  pendingReset : s.pendingReset = t.pendingReset

section Echoes
variable (h : s.Echoes d t)
include h

theorem Echoes.cycle_eq : s.cycle = d + t.cycle := by
  rw [Simulator.cycle, h.engine]

theorem Echoes.outputs_eq (i : Inputs) : s.engine.outputs i = t.engine.outputs i := by
  rw [h.engine]
  rfl

/-- Both engines sample the same, if the ports answer the same. -/
theorem Echoes.inputs_eq (a : Response) :
    s.inputs a (s.resolver.take s.cycle).1 = t.inputs a (t.resolver.take t.cycle).1 := by
  have hfact := (h.resolver.take t.cycle).1
  have hdrive := h.drive t.cycle
  rw [← h.cycle_eq] at hfact hdrive
  have hrequest : s.engine.request = t.engine.request := by
    rw [h.engine]
    rfl
  unfold inputs
  rw [hfact, hdrive, hrequest, h.pendingReset]

theorem Echoes.deliveredBranch_eq (o : Outputs) : s.deliveredBranch o = t.deliveredBranch o := by
  rw [deliveredBranch, deliveredBranch, h.truth]

theorem Echoes.respond (hp : t.Paced latency) (hs : s.Stepped u r) :
    ∃ port, t.port.respond t.engine.request = .ok (r.inputs.memory, port) ∧ ∀ next, u.port.Alike next port := by
  have hrequest : s.engine.request = t.engine.request := by
    rw [h.engine]
    rfl
  have hm : s.port.respond s.engine.request = .ok (r.inputs.memory, u.port) := hs.memory
  have hlt := hs.cycle_lt
  have hle := hp.accesses
  rw [hrequest] at hm
  rw [h.cycle_eq] at hlt
  exact h.port.respond (by omega) hm

/-- A step of the later simulator is a step of the earlier one. -/
theorem Echoes.step_returns (hp : t.Paced latency) (hs : s.Stepped u r) : ∃ v q, t.step = .ok (v, q) := by
  obtain ⟨port, hport, _⟩ := h.respond hp hs
  have hlt := hs.cycle_lt
  have hcycle := h.cycle_eq
  apply hp.counted.step_returns (by omega) hport
  intro b hb
  rw [← h.inputs_eq, ← hs.inputs, ← h.outputs_eq, ← hs.outputs, ← h.deliveredBranch_eq] at hb
  obtain ⟨hnone, _⟩ | ⟨b', due, hsome, hsched⟩ := hs.resolver_cases
  · rw [hb] at hnone
    cases hnone
  rw [hb] at hsome
  cases hsome
  rw [hcycle] at hsched
  obtain ⟨slot, v, hv, _⟩ := (h.resolver.take t.cycle).2.scheduleAfter hsched
  exact ⟨_, hv⟩

/-- The queues take in the same branch, each on its own cycle. -/
theorem Echoes.resolver_step (hs : s.Stepped u r) {v : Simulator LatencyPort} (ht : t.Stepped v q)
    (ho : r.outputs = q.outputs) : u.resolver.Later d v.resolver := by
  have hcycle := h.cycle_eq
  have htake := (h.resolver.take t.cycle).2
  have hbranch : s.deliveredBranch r.outputs = t.deliveredBranch q.outputs := by rw [h.deliveredBranch_eq, ho]
  obtain ⟨hnone, hu⟩ | ⟨b, due, hsome, hsched⟩ := hs.resolver_cases <;>
    obtain ⟨hnone', hv⟩ | ⟨b', due', hsome', hsched'⟩ := ht.resolver_cases
  · rw [hu, hv, hcycle]
    exact htake
  · rw [← hbranch, hnone] at hsome'
    cases hsome'
  · rw [hbranch, hnone'] at hsome
    cases hsome
  · rw [← hbranch, hsome] at hsome'
    cases hsome'
    rw [hcycle] at hsched
    obtain ⟨slot, w, hw, hlater⟩ := htake.scheduleAfter hsched
    rw [hsched'] at hw
    cases hw
    exact hlater

theorem Echoes.step (hp : t.Paced latency) (hs : s.Stepped u r) {v : Simulator LatencyPort} (ht : t.Stepped v q) :
    u.Echoes d v ∧ r = q.later d := by
  have hcycle := h.cycle_eq
  obtain ⟨port, hport, halike⟩ := h.respond hp hs
  have hanswer : t.port.respond t.engine.request = .ok (q.inputs.memory, v.port) := ht.memory
  rw [hport] at hanswer
  obtain ⟨hmemory, rfl⟩ := Prod.mk.inj (Except.ok.inj hanswer)
  have hinputs : r.inputs = q.inputs := by rw [hs.inputs, ht.inputs, h.inputs_eq, hmemory]
  have houtputs : r.outputs = q.outputs := by rw [hs.outputs, ht.outputs, h.outputs_eq, hinputs]
  have hengine : u.engine = { v.engine with cycle := d + v.cycle } := by
    rw [hs.engine, ht.engine, h.engine, Engine.next_withCycle, hinputs, ht.cycle_succ, hcycle]
    rfl
  constructor
  · constructor
    · exact hengine
    · exact halike _
    · rw [hs.rest, ht.rest]
      exact h.drive
    · exact h.resolver_step hs ht houtputs
    · rw [hs.rest, ht.rest]
      exact h.truth
    · rw [hs.rest, ht.rest]
  · change CycleRecord.mk r.cycle r.inputs r.outputs = _
    rw [hs.cycle, hinputs, houtputs, hcycle, ← ht.cycle]
    rfl

theorem Echoes.perform (hp : t.Paced latency) {n : Nat} {after : List CycleRecord}
    (hs : s.perform (List.replicate n .step) = .ok (u, after)) :
    ∃ v start, t.perform (List.replicate n .step) = .ok (v, start) ∧ after = start.map (CycleRecord.later d) := by
  induction n generalizing s t after with
  | zero =>
    cases hs
    exact ⟨t, [], rfl, rfl⟩
  | succ n ih =>
    obtain ⟨w, r, later, hstep, hrest, rfl⟩ := perform_steps_succ.mp hs
    have hs := stepped_of_step hstep
    obtain ⟨v, q, hstep'⟩ := h.step_returns hp hs
    have ht := stepped_of_step hstep'
    obtain ⟨hnext, rfl⟩ := h.step hp hs ht
    obtain ⟨x, start, hstart, rfl⟩ := ih hnext (hp.step ht) hrest
    exact ⟨x, q :: start, perform_steps_succ.mpr ⟨v, q, start, hstep', hstart, rfl⟩, rfl⟩

end Echoes

/-- What a run leaves as it was set up. -/
structure Furnished (c : Config) (program : Array Word) (truth : BranchTable) (s : Simulator LatencyPort) : Prop where
  paced : s.Paced c.memory.latency
  image : s.port.image = ⟨program, c.memory.fill⟩
  consumer : s.consumer = c.consumer
  delay : s.resolver.delay = c.resolution.delay
  truth_eq : s.truth = truth

variable {c : Config} {program : Array Word} {truth : BranchTable}

theorem furnished_ofProgram (h : ofProgram c program truth = .ok s) (hc : c.memory.controller = .simple) :
    s.Furnished c program truth := by
  have hcounted := counted_withPort h
  obtain ⟨_, _, h⟩ := bind_eq_ok.mp h
  cases h
  exact ⟨⟨hcounted, by simp [MemoryConfig.timing, hc], Nat.le_refl 0⟩, rfl, rfl, rfl, rfl⟩

theorem Furnished.step (h : s.Furnished c program truth) (hs : s.Stepped t r) : t.Furnished c program truth where
  paced := h.paced.step hs
  image := (serves_of_stepped h.image hs).1
  consumer := by
    rw [hs.rest]
    exact h.consumer
  delay := hs.delay_eq.trans h.delay
  truth_eq := by
    rw [hs.rest]
    exact h.truth_eq

theorem Furnished.requeue (h : s.Furnished c program truth) (queue : Resolver) (hq : queue.delay = s.resolver.delay)
    (waits : Bool) : { s with resolver := queue, pendingReset := waits }.Furnished c program truth :=
  ⟨⟨⟨h.paced.counted.stats, h.paced.counted.scoreboard⟩, h.paced.timing, h.paced.accesses⟩, h.image, h.consumer,
    hq.trans h.delay, h.truth_eq⟩

theorem Furnished.reset (h : s.Furnished c program truth) : s.reset.Furnished c program truth :=
  h.requeue s.resolver.clear rfl true

theorem invariant_furnished : Invariant (fun s => s.Furnished c program truth) (fun _ => True) (fun _ => True) where
  step h hs _ := h.step hs
  reset h := h.reset
  schedule := by
    intro s t due slot fact _ h hs
    obtain ⟨⟨_, queue⟩, hsched, hs⟩ := bind_eq_ok.mp hs
    cases hs
    exact h.requeue queue (Resolver.delay_schedule hsched) s.pendingReset

theorem reset_presented (hs : s.reset.Stepped t r) : r.inputs.reset := by
  rw [hs.inputs]
  rfl

/-- Nothing is delivered while a reset is presented, and the queue was dropped with the call. -/
theorem queue_of_reset (hs : s.reset.Stepped t r) : t.resolver.queue = [] := by
  obtain ⟨_, htaken⟩ | ⟨b, due, hsome, _⟩ := hs.resolver_cases
  · rw [htaken]
    rfl
  · rw [hs.outputs, Engine.outputs, if_pos (reset_presented hs)] at hsome
    cases hsome

/-- The cycle of a reset brings back the start, whatever went before. -/
theorem Furnished.echoes_of_reset (h : s.Furnished c program truth) (hf : ofProgram c program truth = .ok u)
    (hc : c.memory.controller = .simple) (hs : s.reset.Stepped t r)
    (hd : ∀ n, c.consumer.drive (s.cycle + 1 + n) = c.consumer.drive n) : t.Echoes (s.cycle + 1) u := by
  have ht := h.reset.step hs
  have hu := furnished_ofProgram hf hc
  have hqueue := queue_of_reset hs
  have hengine := hs.engine
  rw [Engine.next_of_reset (reset_presented hs)] at hengine
  obtain ⟨_, _, hf⟩ := bind_eq_ok.mp hf
  cases hf
  constructor
  · exact hengine
  · exact ⟨ht.image.trans hu.image.symm, ht.paced.timing.trans hu.paced.timing.symm, fun hr => by cases hr⟩
  · rw [ht.consumer]
    exact hd
  · exact ⟨ht.delay, hqueue⟩
  · exact ht.truth_eq
  · rw [hs.rest]

/-- Whatever a run has done, the cycles after that of a reset are the cycles of a fresh simulator, later in time, if the
consumer is at the start of its pattern; and they go on as long as the cycle count and the due cycles are in range. -/
theorem reset_restarts (c : Config) (program : Array Word) (truth : BranchTable) (actions : List Action)
    (rs : List CycleRecord) (f s t : Simulator LatencyPort) (r : CycleRecord) (hc : c.memory.controller = .simple)
    (hf : ofProgram c program truth = .ok f) (hs : f.perform actions = .ok (s, rs)) (ht : s.reset.step = .ok (t, r))
    (hperiod : c.consumer.period ∣ s.cycle + 1)
    (hstall : c.consumer.stallEvery = 0 ∨ c.consumer.stallEvery ∣ s.cycle + 1) :
    (∀ n, s.cycle + 1 + n + c.resolution.delay < Count.limit →
      ∃ u after, t.perform (List.replicate n .step) = .ok (u, after)) ∧
    ∀ n u after, t.perform (List.replicate n .step) = .ok (u, after) →
      ∃ v start, f.perform (List.replicate n .step) = .ok (v, start) ∧ start.map (·.cycle) = List.range n ∧
        after = start.map (CycleRecord.later (s.cycle + 1)) := by
  have hfresh := furnished_ofProgram hf hc
  have hfurnished := (invariant_furnished.perform hs hfresh (by simp) (by simp)).1
  have hstep := stepped_of_step ht
  have hnow := hfurnished.reset.step hstep
  constructor
  · intro n hn
    have hprompt : t.Prompt := by
      intro x hx
      rw [queue_of_reset hstep] at hx
      cases hx
    have hcycle : t.cycle = s.cycle + 1 := hstep.cycle_succ
    exact hnow.paced.perform_returns hprompt n (by rw [hcycle, hnow.delay]; exact hn)
  · intro n u after hafter
    have hechoes := hfurnished.echoes_of_reset hf hc hstep (Consumer.drive_add hperiod hstall)
    obtain ⟨v, start, hstart, hmap⟩ := hechoes.perform hfresh.paced hafter
    have hzero : f.cycle = 0 := by
      obtain ⟨_, _, hf⟩ := bind_eq_ok.mp hf
      cases hf
      rfl
    refine ⟨v, start, hstart, ?_, hmap⟩
    rw [map_cycle_steps hstart, hzero, List.range_eq_range']

/-- A reset after a misprediction, with an access in flight and a fact queued for a cycle of the restarted run. -/
theorem reset_restarts_in_flight :
    ∃ f s t r rs, ofProgram { memory := { latency := 3 }, consumer := ⟨2, 4, 1⟩, resolution := ⟨2⟩ }
        #[0x13, 0x63, 0x93, 0x113] (.ofRecords [⟨0x4, true, 0x40⟩]) = .ok f ∧
      f.perform (.schedule 40 ⟨true, true, 0x8, 0x80⟩ :: List.replicate 19 .step) = .ok (s, rs) ∧
      s.cycle = 19 ∧ s.port.busy ∧ s.resolver.pending = 1 ∧ s.stats.mispredictions = 1 ∧
      s.reset.step = .ok (t, r) ∧
      ∃ u after v start, t.perform (List.replicate 24 .step) = .ok (u, after) ∧
        f.perform (List.replicate 24 .step) = .ok (v, start) ∧ start.map (·.cycle) = List.range 24 ∧
        after = start.map (CycleRecord.later 20) := by
  have htrial : (trial { memory := { latency := 3 }, consumer := ⟨2, 4, 1⟩, resolution := ⟨2⟩ }
      #[0x13, 0x63, 0x93, 0x113] (.ofRecords [⟨0x4, true, 0x40⟩])
      (.schedule 40 ⟨true, true, 0x8, 0x80⟩ :: List.replicate 19 .step)).any fun x =>
        x.1.cycle == 19 && x.1.port.busy && x.1.resolver.pending == 1 && x.1.stats.mispredictions == 1 &&
          x.1.reset.step.toOption.any fun _ => true := by
    decide +kernel
  obtain ⟨f, s, rs, hf, hs, htest⟩ := exists_of_trial htrial
  simp only [Bool.and_eq_true, beq_iff_eq] at htest
  obtain ⟨⟨⟨⟨hcycle, hbusy⟩, hpending⟩, hmiss⟩, hreset⟩ := htest
  obtain ⟨⟨t, r⟩, ht, _⟩ := exists_of_any hreset
  obtain ⟨hreturns, hequal⟩ := reset_restarts _ _ _ _ rs f s t r rfl hf hs ht (by rw [hcycle]; decide)
    (Or.inr (by rw [hcycle]; decide))
  obtain ⟨u, after, hafter⟩ := hreturns 24 (by rw [hcycle]; decide)
  obtain ⟨v, start, hstart, hcycles, hmap⟩ := hequal 24 u after hafter
  rw [hcycle] at hmap
  exact ⟨f, s, t, r, rs, hf, hs, hcycle, hbusy, hpending, hmiss, ht, u, after, v, start, hafter, hstart, hcycles, hmap⟩

end Simulator

end FetchStage
