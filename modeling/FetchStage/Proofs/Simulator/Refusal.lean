import FetchStage.Proofs.Buffer.Queue
import FetchStage.Proofs.Simulator.Capacity

/-! # When steps are refused

No setting has an upper bound. A run of steps is refused where it starts an access whose latency is out of range, or delivers
a known branch whose due cycle is, and nowhere else. So it returns if the settings keep both in range.
-/
namespace FetchStage.Simulator
variable {s t : Simulator LatencyPort} {m : MemoryConfig} {delay : Nat} {r : CycleRecord}

/-- The cycle starts an access whose latency is out of range. -/
def AccessOverruns (s : Simulator LatencyPort) : Prop :=
  s.port.Starts s.engine.request ∧ s.port.timing.OutOfRange s.engine.request.address

/-- The cycle delivers a known branch whose due cycle is out of range. -/
def DueOverruns (s : Simulator LatencyPort) : Prop :=
  Count.limit ≤ s.cycle + s.resolver.delay ∧ ∃ u r b, s.clock = .ok (u, r) ∧ s.deliveredBranch r.outputs = some b

/-- What steps keep when no fact comes from outside. -/
structure Regular (m : MemoryConfig) (delay : Nat) (s : Simulator LatencyPort) : Prop where
  counted : s.Counted
  prompt : s.Prompt
  settled : s.engine.buffer.Settled
  waits : s.port.Waits
  accesses_le : s.port.accesses ≤ s.cycle
  closed_timing : s.port.timing.closed = m.timing
  delay_eq : s.resolver.delay = delay

theorem regular_ofProgram {c : Config} {program : Array Word} {truth : BranchTable}
    (h : ofProgram c program truth = .ok s) : s.Regular c.memory c.resolution.delay := by
  have hcounted := counted_withPort h
  obtain ⟨_, _, h⟩ := bind_eq_ok.mp h
  cases h
  exact {
    counted := hcounted
    prompt := fun x hx => by cases hx
    settled := Buffer.settled_empty
    waits := fun f hf => by cases hf
    accesses_le := Nat.le_refl 0
    closed_timing := c.memory.closed_timing
    delay_eq := rfl }

theorem Regular.step (h : s.Regular m delay) (hs : s.Stepped t r) : t.Regular m delay where
  counted := h.counted.step hs
  prompt := h.prompt.step hs
  settled := by
    rw [hs.engine]
    exact Engine.next_settled h.settled r.inputs
  waits := LatencyPort.waits_respond hs.memory
  accesses_le := hs.accesses_le h.accesses_le
  closed_timing := (LatencyPort.closed_respond hs.memory).trans h.closed_timing
  delay_eq := hs.delay_eq.trans h.delay_eq

theorem DueOverruns.step_refused (h : s.DueOverruns) : ∃ o, s.step = .error o := by
  obtain ⟨hle, u, r, b, hclock, hb⟩ := h
  obtain ⟨hcycle, hresolver, hbranch⟩ := clock_eq_ok hclock
  have hadd : Count.add r.cycle u.resolver.delay = .error .add := by
    rw [hcycle, hresolver, Resolver.delay_take]
    exact if_neg (Nat.not_lt_of_le hle)
  have hfeed : u.feedback r = .error .add := by
    rw [feedback, hbranch, hb]
    exact bind_eq_error.mpr (Or.inl (bind_eq_error.mpr (Or.inl hadd)))
  exact ⟨.add, bind_eq_error.mpr (Or.inr ⟨_, hclock, bind_eq_error.mpr (Or.inl hfeed)⟩)⟩

/-- A step is refused exactly when one of the two sums of the cycle is out of range. -/
theorem Regular.step_refused_iff (h : s.Regular m delay) (hn : s.cycle + 1 < Count.limit) :
    (∃ o, s.step = .error o) ↔ s.AccessOverruns ∨ s.DueOverruns := by
  have haccesses := h.accesses_le
  have hport := LatencyPort.respond_refused_iff (p := s.port) (r := s.engine.request) (by omega)
  constructor
  · rintro ⟨o, ho⟩
    by_contra hover
    obtain ⟨haccess, hdue⟩ := not_or.mp hover
    cases hm : s.port.respond s.engine.request with
    | error e => exact haccess (hport.mp ⟨e, hm⟩)
    | ok x =>
      obtain ⟨a, port⟩ := x
      obtain ⟨u, hclock⟩ := h.counted.clock_returns hn hm
      obtain ⟨t, r, hstep⟩ : ∃ t r, s.step = .ok (t, r) := by
        apply h.counted.step_returns hn hm
        intro b hb
        apply Resolver.scheduleAfter_returns _ fun x => h.prompt.take
        rw [Resolver.delay_take]
        by_contra hlt
        exact hdue ⟨by omega, u, _, b, hclock, hb⟩
      rw [hstep] at ho
      cases ho
  · rintro (haccess | hdue)
    · obtain ⟨o, ho⟩ := hport.mpr haccess
      have hclock : s.clock = .error o := bind_eq_error.mpr (Or.inl ho)
      exact ⟨o, bind_eq_error.mpr (Or.inl hclock)⟩
    · exact hdue.step_refused

theorem Regular.step_returns_iff (h : s.Regular m delay) (hn : s.cycle + 1 < Count.limit) :
    (∃ t r, s.step = .ok (t, r)) ↔ ¬(s.AccessOverruns ∨ s.DueOverruns) := by
  rw [← h.step_refused_iff hn]
  cases s.step with
  | error o => simp
  | ok x => exact ⟨fun _ => by simp, fun _ => ⟨x.1, x.2, rfl⟩⟩

theorem Regular.perform (h : s.Regular m delay) {n : Nat} {rs : List CycleRecord}
    (hp : s.perform (List.replicate n .step) = .ok (t, rs)) : t.Regular m delay := by
  induction n generalizing s rs with
  | zero =>
    cases hp
    exact h
  | succ n ih =>
    obtain ⟨u, r, later, hstep, hrest, _⟩ := perform_steps_succ.mp hp
    exact ih (h.step (stepped_of_step hstep)) hrest

/-- Steps return exactly when no simulator on the way meets an overrun. -/
theorem Regular.perform_returns_iff (h : s.Regular m delay) (n : Nat) (hn : s.cycle + n < Count.limit) :
    (∃ t rs, s.perform (List.replicate n .step) = .ok (t, rs)) ↔
      ∀ k < n, ∀ t rs, s.perform (List.replicate k .step) = .ok (t, rs) → ¬(t.AccessOverruns ∨ t.DueOverruns) := by
  induction n generalizing s with
  | zero => exact ⟨fun _ k hk => absurd hk (Nat.not_lt_zero k), fun _ => ⟨s, [], rfl⟩⟩
  | succ n ih =>
    have hnow := h.step_returns_iff (by omega)
    have hlater : ∀ {u r}, s.step = .ok (u, r) → _ := fun {u r} hstep =>
      ih (h.step (stepped_of_step hstep)) (by rw [(stepped_of_step hstep).cycle_succ]; omega)
    constructor
    · rintro ⟨t, rs, hp⟩ k hk v vs hv
      obtain ⟨u, r, later, hstep, hrest, _⟩ := perform_steps_succ.mp hp
      cases k with
      | zero =>
        cases hv
        exact hnow.mp ⟨u, r, hstep⟩
      | succ k =>
        obtain ⟨w, q, ws, hstep', hv, _⟩ := perform_steps_succ.mp hv
        rw [hstep] at hstep'
        cases hstep'
        exact (hlater hstep).mp ⟨t, later, hrest⟩ k (by omega) v ws hv
    · intro hclear
      obtain ⟨u, r, hstep⟩ := hnow.mpr (hclear 0 (Nat.succ_pos n) s [] rfl)
      obtain ⟨t, later, hrest⟩ := (hlater hstep).mpr fun k hk v vs hv =>
        hclear (k + 1) (by omega) v (r :: vs) (perform_steps_succ.mpr ⟨u, r, vs, hstep, hv, rfl⟩)
      exact ⟨t, r :: later, perform_steps_succ.mpr ⟨u, r, later, hstep, hrest, rfl⟩⟩

theorem Regular.clear (h : s.Regular m delay) (hm : m.Fits) (hd : s.cycle + delay < Count.limit) :
    ¬(s.AccessOverruns ∨ s.DueOverruns) := by
  rintro (⟨_, haccess⟩ | ⟨hle, _⟩)
  · exact hm.inRange h.closed_timing _ haccess
  · rw [h.delay_eq] at hle
    omega

/-- Steps of a fresh simulator are refused at an overrun only, and settings that keep the sums in range rule it out. Nothing is
ever taken from a count of zero: an access has a cycle left to wait, and a commit moves the count of the buffer by what it
applies. -/
theorem steps_return_iff {c : Config} {program : Array Word} {truth : BranchTable}
    (hs : ofProgram c program truth = .ok s) (n : Nat) (hn : n < Count.limit) :
    ((∃ t rs, s.perform (List.replicate n .step) = .ok (t, rs)) ↔
      ∀ k < n, ∀ t rs, s.perform (List.replicate k .step) = .ok (t, rs) → ¬(t.AccessOverruns ∨ t.DueOverruns)) ∧
    (c.memory.Fits → n + c.resolution.delay ≤ Count.limit →
      ∃ t rs, s.perform (List.replicate n .step) = .ok (t, rs)) ∧
    ∀ k t rs, s.perform (List.replicate k .step) = .ok (t, rs) →
      (∀ a f p, t.port.current a = .ok (f, p) → 0 < f.remaining) ∧ ∀ i, (t.engine.staged i).InRange := by
  have h := regular_ofProgram hs
  have hzero : s.cycle = 0 := by
    obtain ⟨_, _, hs⟩ := bind_eq_ok.mp hs
    cases hs
    rfl
  have hiff := h.perform_returns_iff n (by omega)
  refine ⟨hiff, ?_, ?_⟩
  · intro hm hd
    apply hiff.mpr
    intro k hk t rs ht
    apply (h.perform ht).clear hm
    rw [cycle_of_steps ht]
    omega
  · intro k t rs ht
    have hregular := h.perform ht
    exact ⟨fun a f p => hregular.waits.current, fun i => (Engine.staged_sound hregular.settled i).inRange⟩

/-- The longest latency and the last due cycle are the greatest in range. -/
theorem steps_return_at_bound :
    ∃ s t rs, ofProgram { memory := { controller := .dram, precharge := Count.limit - 5 }, resolution := ⟨Count.limit - 12⟩ }
        #[] (.ofRecords [⟨4, true, 0x1000⟩]) = .ok s ∧
      s.perform (List.replicate 12 .step) = .ok (t, rs) ∧ ∀ i, (t.engine.staged i).InRange := by
  have hstart : (ofProgram
      { memory := { controller := .dram, precharge := Count.limit - 5 }, resolution := ⟨Count.limit - 12⟩ }
      #[] (.ofRecords [⟨4, true, 0x1000⟩])).toOption.any fun _ => true := by
    decide +kernel
  obtain ⟨s, hs, _⟩ := exists_of_any hstart
  obtain ⟨_, hreturns, hrange⟩ := steps_return_iff hs 12 (by decide)
  obtain ⟨t, rs, ht⟩ := hreturns (fun _ => by decide) (by decide)
  exact ⟨s, t, rs, hs, ht, (hrange 12 t rs ht).2⟩

theorem exists_of_isNone {ε α : Type} {x : Except ε α} (h : x.toOption.isNone) : ∃ e, x = .error e := by
  cases x with
  | error e => exact ⟨e, rfl⟩
  | ok a => cases h

/-- Valid settings rule out neither overrun. With the greatest delay the branch delivered in cycle 2 is due out of range, and
with the greatest activation time the first access ends out of range. -/
theorem steps_refused_of_valid :
    (∃ s, Config.validate { resolution := ⟨Count.limit - 1⟩ } = .ok () ∧
      ofProgram { resolution := ⟨Count.limit - 1⟩ } #[] (.ofRecords [⟨4, true, 0x40⟩]) = .ok s ∧
      ∃ o, s.perform (List.replicate 3 .step) = .error o) ∧
    ∃ s, Config.validate { memory := { controller := .dram, activate := Count.limit - 1 } } = .ok () ∧
      ofProgram { memory := { controller := .dram, activate := Count.limit - 1 } } #[] .empty = .ok s ∧
      ∃ o, s.perform (List.replicate 2 .step) = .error o := by
  have hdue : (ofProgram { resolution := ⟨Count.limit - 1⟩ } #[] (.ofRecords [⟨4, true, 0x40⟩])).toOption.any
      fun s => (s.perform (List.replicate 3 .step)).toOption.isNone := by
    decide +kernel
  have haccess : (ofProgram { memory := { controller := .dram, activate := Count.limit - 1 } } #[] .empty).toOption.any
      fun s => (s.perform (List.replicate 2 .step)).toOption.isNone := by
    decide +kernel
  obtain ⟨s, hs, hnone⟩ := exists_of_any hdue
  obtain ⟨t, ht, hnone'⟩ := exists_of_any haccess
  exact ⟨⟨s, rfl, hs, exists_of_isNone hnone⟩, t, rfl, ht, exists_of_isNone hnone'⟩

end FetchStage.Simulator
