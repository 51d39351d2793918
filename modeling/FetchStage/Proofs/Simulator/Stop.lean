import FetchStage.Proofs.Simulator.Bench

/-! # Stopping at a violation

A simulator that stops at a violation steps as one that goes on, so its run is the beginning of the other run: up to and
with the first cycle that breaks the contract, which all observers have seen by then.
-/
namespace FetchStage

namespace Simulator
variable {σ : Type} {s t : Simulator σ}

/-- The same simulator, told to stop at a violation. -/
def halting (s : Simulator σ) : Simulator σ := { s with stopOnViolation := true }

theorem schedule_halting {due slot : Nat} {fact : Resolution} (h : s.schedule due fact = .ok (slot, t)) :
    s.halting.schedule due fact = .ok (slot, t.halting) := by
  obtain ⟨⟨slot, resolver⟩, hsched, h⟩ := bind_eq_ok.mp h
  cases h
  exact bind_eq_ok.mpr ⟨_, hsched, rfl⟩

theorem feedback_halting {r : CycleRecord} {delivered : Option (BranchRecord × Nat)}
    (h : s.feedback r = .ok (t, delivered)) : s.halting.feedback r = .ok (t.halting, delivered) := by
  have hbranch : s.halting.deliveredBranch r.outputs = s.deliveredBranch r.outputs := rfl
  unfold feedback at h ⊢
  rw [hbranch]
  cases hd : s.deliveredBranch r.outputs with
  | some b =>
    rw [hd] at h
    obtain ⟨⟨due, resolver⟩, hsched, h⟩ := bind_eq_ok.mp h
    cases h
    exact bind_eq_ok.mpr ⟨_, hsched, rfl⟩
  | none =>
    rw [hd] at h
    cases h
    rfl

variable [MemoryPort σ]

theorem clock_halting {r : CycleRecord} (h : s.clock = .ok (t, r)) : s.halting.clock = .ok (t.halting, r) := by
  unfold clock at h ⊢
  obtain ⟨⟨response, port⟩, hm, h⟩ := bind_eq_ok.mp h
  obtain ⟨⟨engine, o⟩, he, h⟩ := bind_eq_ok.mp h
  obtain ⟨trained, ht, h⟩ := bind_eq_ok.mp h
  obtain ⟨stats, hs, h⟩ := bind_eq_ok.mp h
  obtain ⟨scoreboard, hb, h⟩ := bind_eq_ok.mp h
  cases h
  exact bind_eq_ok.mpr ⟨_, hm, bind_eq_ok.mpr ⟨_, he, bind_eq_ok.mpr ⟨_, ht, bind_eq_ok.mpr ⟨_, hs,
    bind_eq_ok.mpr ⟨_, hb, rfl⟩⟩⟩⟩⟩

theorem step_halting {r : CycleRecord} (h : s.step = .ok (t, r)) : s.halting.step = .ok (t.halting, r) := by
  obtain ⟨⟨u, q⟩, hclock, h⟩ := bind_eq_ok.mp h
  obtain ⟨⟨v, delivered⟩, hfeed, h⟩ := bind_eq_ok.mp h
  cases h
  exact bind_eq_ok.mpr ⟨_, clock_halting hclock, bind_eq_ok.mpr ⟨_, feedback_halting hfeed, rfl⟩⟩

theorem act_halting {a : Action} {rs : List CycleRecord} (h : s.act a = .ok (t, rs)) :
    s.halting.act a = .ok (t.halting, rs) := by
  cases a with
  | step =>
    obtain ⟨⟨u, r⟩, hstep, h⟩ := bind_eq_ok.mp h
    cases h
    exact bind_eq_ok.mpr ⟨_, step_halting hstep, rfl⟩
  | reset =>
    cases h
    rfl
  | schedule due fact =>
    obtain ⟨⟨slot, u⟩, hsched, h⟩ := bind_eq_ok.mp h
    cases h
    exact bind_eq_ok.mpr ⟨_, schedule_halting hsched, rfl⟩

/-- No call depends on whether a violation would stop the run. -/
theorem perform_halting {actions : List Action} {rs : List CycleRecord} (h : s.perform actions = .ok (t, rs)) :
    s.halting.perform actions = .ok (t.halting, rs) := by
  induction actions generalizing s rs with
  | nil =>
    cases h
    rfl
  | cons a rest ih =>
    obtain ⟨⟨u, now⟩, hact, h⟩ := bind_eq_ok.mp h
    obtain ⟨⟨v, later⟩, hrest, h⟩ := bind_eq_ok.mp h
    cases h
    exact bind_eq_ok.mpr ⟨_, act_halting hact, bind_eq_ok.mpr ⟨_, ih hrest, rfl⟩⟩

theorem Stepped.verdict_eq {r : CycleRecord} (h : s.Stepped t r) : t.verdict = s.verdict := by
  rw [h.rest]
  rfl

/-- The checker keeps the violations of all cycles in their order. -/
theorem violations_of_steps {n : Nat} {rs : List CycleRecord} (h : s.perform (List.replicate n .step) = .ok (t, rs)) :
    t.checker.violations.toList = s.checker.violations.toList ++ rs.flatMap (·.violations) := by
  induction n generalizing s rs with
  | zero =>
    cases h
    exact (List.append_nil _).symm
  | succ n ih =>
    obtain ⟨u, r, later, hstep, hrest, rfl⟩ := perform_steps_succ.mp h
    rw [ih hrest, (stepped_of_step hstep).checker, Checker.observe, Array.toList_appendList, List.flatMap_cons,
      List.append_assoc]

/-- A run that goes on at violations makes all its steps. -/
theorem perform_of_runFor {n : Nat} {v : Option Violation} (hs : s.stopOnViolation = false)
    (h : s.runFor n = .ok (t, v)) : ∃ rs, s.perform (List.replicate n .step) = .ok (t, rs) := by
  induction n generalizing s with
  | zero =>
    cases h
    exact ⟨[], rfl⟩
  | succ n ih =>
    obtain ⟨⟨u, r⟩, hstep, h⟩ := bind_eq_ok.mp h
    have hu : u.stopOnViolation = false := by
      rw [(stepped_of_step hstep).rest]
      exact hs
    have hverdict : u.verdict r = none := by
      rw [verdict, hu]
      rfl
    simp only [hverdict] at h
    obtain ⟨later, hrest⟩ := ih hu h
    exact ⟨r :: later, perform_steps_succ.mpr ⟨u, r, later, hstep, hrest, rfl⟩⟩

/-- Facts that are scheduled change the queue only. -/
theorem perform_facts {facts : List (Nat × Resolution)} {rs : List CycleRecord}
    (h : s.perform (facts.map fun f => .schedule f.1 f.2) = .ok (t, rs)) : t = { s with resolver := t.resolver } := by
  induction facts generalizing s rs with
  | nil =>
    cases h
    rfl
  | cons f rest ih =>
    obtain ⟨⟨u, now⟩, hact, h⟩ := bind_eq_ok.mp h
    obtain ⟨⟨v, later⟩, hrest, h⟩ := bind_eq_ok.mp h
    obtain ⟨⟨slot, w⟩, hsched, hact⟩ := bind_eq_ok.mp hact
    cases hact
    cases h
    rw [ih hrest, schedule_eq_ok hsched]

end Simulator

namespace Bench
variable {σ ω : Type} {a b : Bench σ ω} {t : Simulator σ}

/-- Two fresh benches, of which the first stops at a violation and the second goes on. -/
structure Paired (a b : Bench σ ω) : Prop where
  sim : a.sim = b.sim.halting
  observers : a.observers = b.observers
  cycle : b.sim.cycle = 0
  lenient : b.sim.stopOnViolation = false
  checker : b.sim.checker = {}

theorem Paired.cycle_eq (h : a.Paired b) : a.sim.cycle = 0 := by
  rw [h.sim]
  exact h.cycle

theorem Paired.verdict_eq (h : a.Paired b) (r : CycleRecord) : a.sim.verdict r = r.violations.head? := by
  rw [h.sim]
  rfl

variable [MemoryPort σ]

theorem paired_withPort {c : Config} {port : σ} {image : Image} {truth : BranchTable} {facts : List (Nat × Resolution)}
    {fa fb : Simulator σ} {ra rb : List CycleRecord}
    (hfa : Simulator.withPort { c with general.stopOnViolation := true } port image truth = .ok fa)
    (hfb : Simulator.withPort { c with general.stopOnViolation := false } port image truth = .ok fb)
    (ha : fa.perform (facts.map fun f => .schedule f.1 f.2) = .ok (a.sim, ra))
    (hb : fb.perform (facts.map fun f => .schedule f.1 f.2) = .ok (b.sim, rb)) (hobserved : a.observers = b.observers) :
    a.Paired b := by
  obtain ⟨_, _, hfa⟩ := bind_eq_ok.mp hfa
  obtain ⟨_, _, hfb⟩ := bind_eq_ok.mp hfb
  cases hfa
  cases hfb
  have hfacts := Simulator.perform_facts hb
  refine ⟨?_, hobserved, ?_, ?_, ?_⟩
  · exact (Prod.mk.inj (Except.ok.inj (ha.symm.trans (Simulator.perform_halting hb)))).1
  · rw [hfacts]
    rfl
  · rw [hfacts]
  · rw [hfacts]

theorem Paired.perform (h : a.Paired b) {actions : List Simulator.Action} {rs : List CycleRecord}
    (hb : b.sim.perform actions = .ok (t, rs)) : a.sim.perform actions = .ok (t.halting, rs) := by
  rw [h.sim]
  exact Simulator.perform_halting hb

theorem Paired.recorded (h : a.Paired b) {n : Nat} {rs : List CycleRecord}
    (hb : b.sim.perform (List.replicate n .step) = .ok (t, rs)) :
    t.checker.violations.toList = rs.flatMap (·.violations) := by
  rw [Simulator.violations_of_steps hb, h.checker]
  rfl

variable [Observer ω]

/-- Cycles without a verdict are all run, and every observer is shown each of them. -/
theorem runFor_of_silent {n : Nat} {rs : List CycleRecord}
    (h : b.sim.perform (List.replicate n .step) = .ok (t, rs)) (hr : ∀ r ∈ rs, b.sim.verdict r = none) :
    ∃ last : Bench σ ω, b.runFor n = (last, .done ()) ∧ last.sim = t ∧
      last.observers = b.observers.map fun w => rs.foldl Observer.observe w := by
  induction n generalizing b rs with
  | zero =>
    cases h
    exact ⟨b, rfl, rfl, by simp⟩
  | succ n ih =>
    obtain ⟨u, r, later, hstep, hrest, rfl⟩ := Simulator.perform_steps_succ.mp h
    have hverdict := (Simulator.stepped_of_step hstep).verdict_eq
    obtain ⟨next, hb, rfl, hobserved⟩ := step_of_ok hstep
    rw [hverdict, hr r List.mem_cons_self] at hb
    obtain ⟨last, hrun, hlast, hshown⟩ := ih hrest fun q hq => by
      rw [hverdict]
      exact hr q (List.mem_cons_of_mem _ hq)
    refine ⟨last, ?_, hlast, ?_⟩
    · rw [runFor, hb]
      exact hrun
    · rw [hshown, hobserved, List.map_map]
      rfl

theorem runFor_add {n : Nat} {last : Bench σ ω} (h : b.runFor n = (last, .done ())) (m : Nat) :
    b.runFor (n + m) = last.runFor m := by
  induction n generalizing b with
  | zero =>
    cases h
    rw [Nat.zero_add]
  | succ n ih =>
    rw [Nat.succ_add]
    rw [runFor] at h ⊢
    rcases hb : b.step with ⟨next, o | v | o⟩
    · rw [hb] at h
      exact ih h
    · rw [hb] at h
      cases h
    · rw [hb] at h
      cases h

/-- The first cycle with a verdict is the last one run, and every observer is shown that cycle too. -/
theorem runFor_of_verdict {p u : Simulator σ} {before : List CycleRecord} {r : CycleRecord} {v : Violation}
    (hbefore : b.sim.perform (List.replicate before.length .step) = .ok (p, before))
    (hr : ∀ q ∈ before, b.sim.verdict q = none) (hstep : p.step = .ok (u, r)) (hv : p.verdict r = some v) (m : Nat) :
    ∃ last : Bench σ ω, b.runFor (before.length + (m + 1)) = (last, .stopped v) ∧ last.sim = u ∧
      last.observers = b.observers.map fun w => (before ++ [r]).foldl Observer.observe w := by
  obtain ⟨mid, hrun, rfl, hmid⟩ := runFor_of_silent hbefore hr
  obtain ⟨last, hb, hlast, hobserved⟩ := step_of_ok hstep
  rw [(Simulator.stepped_of_step hstep).verdict_eq, hv] at hb
  refine ⟨last, ?_, hlast, ?_⟩
  · rw [runFor_add hrun, runFor, hb]
    rfl
  · rw [hobserved, hmid, List.map_map]
    congr 1
    funext w
    simp

section Fresh
variable (hzero : b.sim.cycle = 0)
include hzero

theorem run_of_silent {n : Nat} {rs : List CycleRecord} (h : b.sim.perform (List.replicate n .step) = .ok (t, rs))
    (hr : ∀ r ∈ rs, b.sim.verdict r = none) :
    (b.run n).2 = .done n ∧ (b.run n).1.sim = t ∧
      (b.run n).1.observers = b.observers.map fun w => rs.foldl Observer.observe w := by
  obtain ⟨last, hrun, hlast, hobserved⟩ := runFor_of_silent h hr
  have hran : last.sim.cycle - b.sim.cycle = n := by
    rw [hlast, Simulator.cycle_of_steps h]
    omega
  unfold run
  rw [hzero] at hran ⊢
  simp only [Nat.sub_zero, hrun]
  exact ⟨congrArg Outcome.done hran, hlast, hobserved⟩

theorem run_of_verdict {p u : Simulator σ} {before : List CycleRecord} {r : CycleRecord} {v : Violation}
    (hbefore : b.sim.perform (List.replicate before.length .step) = .ok (p, before))
    (hr : ∀ q ∈ before, b.sim.verdict q = none) (hstep : p.step = .ok (u, r)) (hv : p.verdict r = some v) (m : Nat) :
    (b.run (before.length + (m + 1))).2 = .stopped v ∧ (b.run (before.length + (m + 1))).1.sim = u ∧
      (b.run (before.length + (m + 1))).1.observers =
        b.observers.map fun w => (before ++ [r]).foldl Observer.observe w := by
  obtain ⟨last, hrun, hlast, hobserved⟩ := runFor_of_verdict hbefore hr hstep hv m
  unfold run
  rw [hzero]
  simp only [Nat.sub_zero, hrun]
  exact ⟨trivial, hlast, hobserved⟩

theorem run_of_lenient {n : Nat} (hs : b.sim.stopOnViolation = false) (ho : ∀ o, (b.run n).2 ≠ .overflow o) :
    ∃ rs, b.sim.perform (List.replicate n .step) = .ok ((b.run n).1.sim, rs) ∧ (b.run n).2 = .done n ∧
      (b.run n).1.observers = b.observers.map fun w => rs.foldl Observer.observe w := by
  obtain ⟨last, ⟨o, _, hb⟩ | ⟨v, hrun, hb⟩⟩ := b.run_follows n
  · exact absurd (by rw [hb]) (ho o)
  obtain ⟨rs, h⟩ := Simulator.perform_of_runFor hs hrun
  rw [hzero, Nat.sub_zero] at h
  have hsilent : ∀ r ∈ rs, b.sim.verdict r = none := by
    intro r _
    rw [Simulator.verdict, hs]
    rfl
  obtain ⟨hdone, hsim, hobserved⟩ := run_of_silent hzero h hsilent
  exact ⟨rs, by rw [h, hsim], hdone, hobserved⟩

end Fresh

/-- As long as nothing is recorded, the first bench runs on too. -/
theorem Paired.run_of_clean (h : a.Paired b) {n : Nat} {rs : List CycleRecord}
    (hb : b.sim.perform (List.replicate n .step) = .ok (t, rs)) (hclean : t.checker.violations = #[]) :
    (a.run n).2 = .done n ∧ (a.run n).1.sim = t.halting ∧
      (a.run n).1.observers = b.observers.map fun w => rs.foldl Observer.observe w := by
  have hrecorded := h.recorded hb
  rw [hclean] at hrecorded
  have hquiet : ∀ r ∈ rs, a.sim.verdict r = none := by
    intro r hr
    rw [h.verdict_eq, List.flatMap_eq_nil_iff.mp hrecorded.symm r hr]
    rfl
  rw [← h.observers]
  exact run_of_silent h.cycle_eq (h.perform hb) hquiet

/-- The first bench ends with the cycle of the first violation that the second one records. -/
theorem Paired.run_of_first (h : a.Paired b) {n : Nat} {rs : List CycleRecord} {v : Violation}
    (hb : b.sim.perform (List.replicate n .step) = .ok (t, rs)) (hv : t.checker.violations[0]? = some v) :
    (a.run n).2 = .stopped v ∧ (a.run n).1.sim.cycle = v.cycle + 1 ∧
    ∃ p u before r, b.sim.perform (List.replicate v.cycle .step) = .ok (p, before) ∧ p.step = .ok (u, r) ∧
      r.violations.head? = some v ∧ (a.run n).1.sim = u.halting ∧
      (a.run n).1.observers = b.observers.map fun w => (before ++ [r]).foldl Observer.observe w := by
  have hfirst : rs.findSome? (fun r => r.violations.head?) = some v := by
    rw [← List.head?_flatMap, List.head?_eq_getElem?, ← hv, ← Array.getElem?_toList, h.recorded hb]
  obtain ⟨before, r, later, rfl, hr, hbefore⟩ := List.findSome?_eq_some_iff.mp hfirst
  obtain ⟨p, u, m, hp, hstep, rfl⟩ := Simulator.perform_steps_split hb
  have hs := Simulator.stepped_of_step hstep
  have hlength : p.cycle = before.length := by rw [Simulator.cycle_of_steps hp, h.cycle, Nat.zero_add]
  have hcycle : v.cycle = before.length := by
    obtain ⟨breach, _, rfl⟩ := List.mem_map.mp (List.mem_of_mem_head? hr)
    exact hs.cycle.trans hlength
  obtain ⟨hstopped, hsim, hshown⟩ := run_of_verdict h.cycle_eq (h.perform hp)
    (fun q hq => (h.verdict_eq q).trans (hbefore q hq)) (Simulator.step_halting hstep) hr m
  refine ⟨hstopped, ?_, p, u, before, r, by rw [hcycle]; exact hp, hstep, hr, hsim, ?_⟩
  · rw [hsim, hcycle, ← hlength]
    exact hs.cycle_succ
  · rw [hshown, h.observers]

/-- Two benches with the same observers differ only in whether a violation stops them, and the one that goes on does not
overflow; its observers are shown all cycles. If it records nothing, the other ends in the same state. Otherwise the
other stops with the first violation recorded, in the state after the cycle of that violation, which every observer has
been shown and whose branch has been scheduled. -/
theorem run_stops_at_first_violation (c : Config) (port : σ) (image : Image) (truth : BranchTable)
    (facts : List (Nat × Resolution)) (n : Nat) (a b : Bench σ ω) (fa fb : Simulator σ) (ra rb : List CycleRecord)
    (hfa : Simulator.withPort { c with general.stopOnViolation := true } port image truth = .ok fa)
    (hfb : Simulator.withPort { c with general.stopOnViolation := false } port image truth = .ok fb)
    (ha : fa.perform (facts.map fun f => .schedule f.1 f.2) = .ok (a.sim, ra))
    (hb : fb.perform (facts.map fun f => .schedule f.1 f.2) = .ok (b.sim, rb)) (hobserved : a.observers = b.observers)
    (ho : ∀ o, (b.run n).2 ≠ .overflow o) :
    (b.run n).2 = .done n ∧
    (∃ rs, b.sim.perform (List.replicate n .step) = .ok ((b.run n).1.sim, rs) ∧
      (b.run n).1.observers = b.observers.map fun w => rs.foldl Observer.observe w) ∧
    ((b.run n).1.sim.checker.violations = #[] →
      (a.run n).2 = .done n ∧ (a.run n).1.sim = (b.run n).1.sim.halting ∧
      (a.run n).1.observers = (b.run n).1.observers) ∧
    ∀ v, (b.run n).1.sim.checker.violations[0]? = some v →
      (a.run n).2 = .stopped v ∧ (a.run n).1.sim.cycle = v.cycle + 1 ∧
      ∃ p u before r, b.sim.perform (List.replicate v.cycle .step) = .ok (p, before) ∧ p.step = .ok (u, r) ∧
        p.Stepped u r ∧ r.violations.head? = some v ∧ (a.run n).1.sim = u.halting ∧
        (a.run n).1.observers = b.observers.map fun w => (before ++ [r]).foldl Observer.observe w := by
  have hpaired := paired_withPort hfa hfb ha hb hobserved
  obtain ⟨rs, hperform, hdone, hshown⟩ := run_of_lenient hpaired.cycle hpaired.lenient ho
  refine ⟨hdone, ⟨rs, hperform, hshown⟩, ?_, ?_⟩
  · intro hclean
    obtain ⟨hdone', hsim, hshown'⟩ := hpaired.run_of_clean hperform hclean
    exact ⟨hdone', hsim, hshown'.trans hshown.symm⟩
  · intro v hv
    obtain ⟨hstopped, hcycle, p, u, before, r, hp, hstep, hr, hsim, hshown'⟩ := hpaired.run_of_first hperform hv
    exact ⟨hstopped, hcycle, p, u, before, r, hp, hstep, Simulator.stepped_of_step hstep, hr, hsim, hshown'⟩

/-- A redirect to a misaligned target in the cycle that delivers a branch, with two wave dumps and one more checker as
observers; the run that goes on records five more. -/
theorem run_stops_at_redirect :
    ∃ (fa fb : Simulator LatencyPort) (a b : Bench LatencyPort (WaveDump ⊕ Checker)) (ra rb : List CycleRecord),
      Simulator.ofProgram { general := { stopOnViolation := true } } #[0x13, 0x63, 0x63, 0x113]
        (.ofRecords [⟨0x4, true, 0x40⟩]) = .ok fa ∧
      Simulator.ofProgram { general := { stopOnViolation := false } } #[0x13, 0x63, 0x63, 0x113]
        (.ofRecords [⟨0x4, true, 0x40⟩]) = .ok fb ∧
      fa.perform [.schedule 2 ⟨true, true, 0x40, 0x102⟩] = .ok (a.sim, ra) ∧
      fb.perform [.schedule 2 ⟨true, true, 0x40, 0x102⟩] = .ok (b.sim, rb) ∧
      a.observers = [.inl {}, .inr {}, .inl {}] ∧ b.observers = [.inl {}, .inr {}, .inl {}] ∧
      (∀ o, (b.run 9).2 ≠ .overflow o) ∧ (b.run 9).1.sim.checker.violations.size = 6 ∧
      (a.run 9).1.sim.resolver.pending = 1 ∧ (a.run 9).2 = .stopped ⟨2, .misalignedRedirect 0x102⟩ ∧
      (a.run 9).1.sim.cycle = 3 ∧
      ∃ p u before r, b.sim.perform (List.replicate 2 .step) = .ok (p, before) ∧ p.step = .ok (u, r) ∧
        p.Stepped u r ∧ r.violations.head? = some ⟨2, .misalignedRedirect 0x102⟩ ∧ (a.run 9).1.sim = u.halting ∧
        (a.run 9).1.observers = b.observers.map fun w => (before ++ [r]).foldl Observer.observe w := by
  have htrial : (Simulator.trial { general := { stopOnViolation := true } } #[0x13, 0x63, 0x63, 0x113]
      (.ofRecords [⟨0x4, true, 0x40⟩]) [.schedule 2 ⟨true, true, 0x40, 0x102⟩]).any fun x =>
        (x.1.run 9).toOption.any fun y => y.1.resolver.pending == 1 := by
    decide +kernel
  have htrial' : (Simulator.trial { general := { stopOnViolation := false } } #[0x13, 0x63, 0x63, 0x113]
      (.ofRecords [⟨0x4, true, 0x40⟩]) [.schedule 2 ⟨true, true, 0x40, 0x102⟩]).any fun x =>
        (x.1.run 9).toOption.any fun y => y.1.checker.violations.size == 6 &&
          y.1.checker.violations[0]? == some ⟨2, .misalignedRedirect 0x102⟩ := by
    decide +kernel
  let observers : List (WaveDump ⊕ Checker) := [.inl {}, .inr {}, .inl {}]
  obtain ⟨fa, sa, ra, hfa, ha, htest⟩ := Simulator.exists_of_trial htrial
  obtain ⟨⟨_, _⟩, hrun, hpending⟩ := Simulator.exists_of_any htest
  rw [beq_iff_eq, ← (run_of_ok (b := { sim := sa, observers }) hrun).2] at hpending
  obtain ⟨fb, sb, rb, hfb, hb, htest⟩ := Simulator.exists_of_trial htrial'
  obtain ⟨⟨_, _⟩, hrun, htest⟩ := Simulator.exists_of_any htest
  simp only [Bool.and_eq_true, beq_iff_eq] at htest
  obtain ⟨hsize, hfirst⟩ := htest
  obtain ⟨ho, hsim⟩ := run_of_ok (b := { sim := sb, observers }) hrun
  rw [← hsim] at hsize hfirst
  obtain ⟨hstopped, hcycle, hstate⟩ := (run_stops_at_first_violation {} _ _ _ [(2, ⟨true, true, 0x40, 0x102⟩)] 9
    { sim := sa, observers } { sim := sb, observers } fa fb ra rb hfa hfb ha hb rfl ho).2.2.2 _ hfirst
  exact ⟨fa, fb, _, _, ra, rb, hfa, hfb, ha, hb, rfl, rfl, ho, hsize, hpending, hstopped, hcycle, hstate⟩

end Bench

end FetchStage
