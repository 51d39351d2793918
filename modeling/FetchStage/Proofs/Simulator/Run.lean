import FetchStage.Simulator.Basic
import FetchStage.Proofs.Engine.Cycle
import Mathlib.Data.List.Induction

/-! # Steps and runs of the simulator

A step that returns is described once, field by field. A run is any sequence of steps, resets and scheduled facts, and
what every action keeps holds of every simulator that a run returns.
-/
namespace FetchStage.Simulator
variable {σ : Type} [MemoryPort σ]

/-- What a step has done once it has returned. -/
structure Stepped (s t : Simulator σ) (r : CycleRecord) : Prop where
  cycle : r.cycle = s.cycle
  memory : MemoryPort.respond s.port s.engine.request = .ok (r.inputs.memory, t.port)
  inputs : r.inputs = s.inputs r.inputs.memory (s.resolver.take s.cycle).1
  outputs : r.outputs = s.engine.outputs r.inputs
  cycle_lt : s.cycle + 1 < Count.limit
  engine : t.engine = { s.engine.next r.inputs with cycle := s.cycle + 1 }
  stats : ∃ trained, s.recordTraining r.inputs t.engine = .ok trained ∧ trained.observe r = .ok t.stats
  scoreboard : s.scoreboard.observe r = .ok t.scoreboard
  checker : t.checker = s.checker.observe r
  /-- A delivered branch is scheduled after the fact of this cycle has left the queue. -/
  feedback : match s.deliveredBranch r.outputs with
    | some b => ∃ due, (s.resolver.take s.cycle).2.scheduleAfter s.cycle b.resolution = .ok (due, t.resolver)
    | none => t.resolver = (s.resolver.take s.cycle).2
  /-- Nothing else changes, save that a waiting reset has been presented. -/
  rest : t = { s with
    engine := t.engine, port := t.port, resolver := t.resolver, stats := t.stats, scoreboard := t.scoreboard
    checker := t.checker, pendingReset := false }

theorem Stepped.record_eq {s t : Simulator σ} {r : CycleRecord} (h : s.Stepped t r) :
    r = s.engine.record r.inputs := by
  rw [Engine.record, ← h.outputs]
  exact congrArg (fun n => CycleRecord.mk n r.inputs r.outputs) h.cycle

theorem stepped_of_step {s t : Simulator σ} {r : CycleRecord} (h : s.step = .ok (t, r)) : s.Stepped t r := by
  obtain ⟨⟨u, r⟩, hclock, h⟩ := bind_eq_ok.mp h
  obtain ⟨⟨v, scheduled⟩, hfeed, h⟩ := bind_eq_ok.mp h
  cases h
  unfold clock at hclock
  rcases htake : s.resolver.take s.cycle with ⟨fact, queue⟩
  rw [htake] at hclock
  obtain ⟨⟨response, port⟩, hm, h⟩ := bind_eq_ok.mp hclock
  obtain ⟨⟨engine, o⟩, he, h⟩ := bind_eq_ok.mp h
  obtain ⟨trained, ht, h⟩ := bind_eq_ok.mp h
  obtain ⟨stats, hs, h⟩ := bind_eq_ok.mp h
  obtain ⟨scoreboard, hb, h⟩ := bind_eq_ok.mp h
  cases h
  obtain ⟨hlt, hengine, ho⟩ := Engine.step_eq_ok he
  unfold feedback at hfeed
  change (match s.deliveredBranch o with | some _ => _ | none => _) = _ at hfeed
  cases hd : s.deliveredBranch o with
  | some b =>
    rw [hd] at hfeed
    obtain ⟨⟨due, resolver⟩, hsched, h⟩ := bind_eq_ok.mp hfeed
    cases h
    refine ⟨rfl, hm, by rw [htake]; rfl, ho, hlt, hengine, ⟨trained, ht, hs⟩, hb, rfl, ?_, rfl⟩
    rw [hd, htake]
    exact ⟨due, hsched⟩
  | none =>
    rw [hd] at hfeed
    cases hfeed
    refine ⟨rfl, hm, by rw [htake]; rfl, ho, hlt, hengine, ⟨trained, ht, hs⟩, hb, rfl, ?_, rfl⟩
    rw [hd, htake]

theorem Stepped.cycle_succ {s t : Simulator σ} {r : CycleRecord} (h : s.Stepped t r) : t.cycle = s.cycle + 1 := by
  rw [Simulator.cycle, h.engine]

/-- The queue goes on without the fact presented, and takes in the branch delivered if there is one. -/
theorem Stepped.resolver_cases {s t : Simulator σ} {r : CycleRecord} (h : s.Stepped t r) :
    (s.deliveredBranch r.outputs = none ∧ t.resolver = (s.resolver.take s.cycle).2) ∨
      ∃ b due, s.deliveredBranch r.outputs = some b ∧
        (s.resolver.take s.cycle).2.scheduleAfter s.cycle b.resolution = .ok (due, t.resolver) := by
  have hfeed := h.feedback
  cases hb : s.deliveredBranch r.outputs with
  | none =>
    rw [hb] at hfeed
    exact Or.inl ⟨rfl, hfeed⟩
  | some b =>
    rw [hb] at hfeed
    obtain ⟨due, hsched⟩ := hfeed
    exact Or.inr ⟨b, due, rfl, hsched⟩

inductive Action where
  | step
  | reset
  | schedule (due : Nat) (fact : Resolution)
  deriving DecidableEq

/-- One call, with the record of the cycle if it is a step. -/
def act (s : Simulator σ) : Action → Except Overflow (Simulator σ × List CycleRecord)
  | .step => do
    let (s, r) ← s.step
    return (s, [r])
  | .reset => .ok (s.reset, [])
  | .schedule due fact => do
    let (_, s) ← s.schedule due fact
    return (s, [])

def perform (s : Simulator σ) : List Action → Except Overflow (Simulator σ × List CycleRecord)
  | [] => .ok (s, [])
  | a :: rest => do
    let (s, rs) ← s.act a
    let (s, later) ← s.perform rest
    return (s, rs ++ later)

theorem perform_steps_succ {s t : Simulator σ} {n : Nat} {rs : List CycleRecord} :
    s.perform (List.replicate (n + 1) .step) = .ok (t, rs) ↔
      ∃ u r later, s.step = .ok (u, r) ∧ u.perform (List.replicate n .step) = .ok (t, later) ∧ rs = r :: later := by
  rw [List.replicate_succ, perform, bind_eq_ok]
  constructor
  · rintro ⟨⟨u, now⟩, hact, h⟩
    obtain ⟨⟨u, r⟩, hstep, hact⟩ := bind_eq_ok.mp hact
    obtain ⟨⟨v, later⟩, hrest, h⟩ := bind_eq_ok.mp h
    cases hact
    cases h
    exact ⟨u, r, later, hstep, hrest, rfl⟩
  · rintro ⟨u, r, later, hstep, hrest, rfl⟩
    exact ⟨(u, [r]), bind_eq_ok.mpr ⟨_, hstep, rfl⟩, bind_eq_ok.mpr ⟨_, hrest, rfl⟩⟩

/-- A run of steps can be cut at any of its cycles. -/
theorem perform_steps_split {s t : Simulator σ} {n : Nat} {before later : List CycleRecord} {r : CycleRecord}
    (h : s.perform (List.replicate n .step) = .ok (t, before ++ r :: later)) :
    ∃ p u m, s.perform (List.replicate before.length .step) = .ok (p, before) ∧ p.step = .ok (u, r) ∧
      n = before.length + (m + 1) := by
  induction n generalizing s before with
  | zero =>
    have hnil : [] = before ++ r :: later := congrArg Prod.snd (Except.ok.inj h)
    simp at hnil
  | succ n ih =>
    obtain ⟨u, q, rest, hstep, hrest, hrs⟩ := perform_steps_succ.mp h
    cases before with
    | nil =>
      obtain ⟨rfl, rfl⟩ := List.cons.inj hrs
      exact ⟨s, u, n, rfl, hstep, (Nat.zero_add _).symm⟩
    | cons b before =>
      obtain ⟨rfl, rfl⟩ := List.cons.inj hrs
      obtain ⟨p, v, m, hbefore, hcut, rfl⟩ := ih hrest
      exact ⟨p, v, m, perform_steps_succ.mpr ⟨u, b, before, hstep, hbefore, rfl⟩, hcut, by simp; omega⟩

omit [MemoryPort σ] in
theorem schedule_eq_ok {s t : Simulator σ} {due slot : Nat} {fact : Resolution}
    (h : s.schedule due fact = .ok (slot, t)) : t = { s with resolver := t.resolver } := by
  obtain ⟨⟨slot, resolver⟩, _, h⟩ := bind_eq_ok.mp h
  cases h
  rfl

theorem cycle_of_steps {s t : Simulator σ} {n : Nat} {rs : List CycleRecord}
    (h : s.perform (List.replicate n .step) = .ok (t, rs)) : t.cycle = s.cycle + n := by
  induction n generalizing s rs with
  | zero =>
    cases h
    rfl
  | succ n ih =>
    obtain ⟨u, r, later, hstep, hrest, rfl⟩ := perform_steps_succ.mp h
    rw [ih hrest, (stepped_of_step hstep).cycle_succ]
    omega

/-- Steps alone show one cycle after the other. -/
theorem map_cycle_steps {s t : Simulator σ} {n : Nat} {rs : List CycleRecord}
    (h : s.perform (List.replicate n .step) = .ok (t, rs)) : rs.map (·.cycle) = List.range' s.cycle n := by
  induction n generalizing s rs with
  | zero =>
    cases h
    rfl
  | succ n ih =>
    obtain ⟨u, r, later, hstep, hrest, rfl⟩ := perform_steps_succ.mp h
    have hs := stepped_of_step hstep
    rw [List.map_cons, ih hrest, hs.cycle, hs.cycle_succ, List.range'_succ]

/-- `P` is kept by the calls in `A`, as long as the cycles meet `H`. -/
structure Invariant (P : Simulator σ → Prop) (A : Action → Prop) (H : CycleRecord → Prop) : Prop where
  step : ∀ {s t : Simulator σ} {r : CycleRecord}, P s → s.Stepped t r → H r → P t
  reset : ∀ {s : Simulator σ}, P s → P s.reset
  schedule : ∀ {s t : Simulator σ} {due slot : Nat} {fact : Resolution},
    A (.schedule due fact) → P s → s.schedule due fact = .ok (slot, t) → P t

theorem Invariant.perform {P : Simulator σ → Prop} {A : Action → Prop} {H : CycleRecord → Prop}
    (hinv : Invariant P A H) {s t : Simulator σ} {actions : List Action} {rs : List CycleRecord}
    (h : s.perform actions = .ok (t, rs)) (hs : P s) (ha : ∀ a ∈ actions, A a) (hr : ∀ r ∈ rs, H r) :
    P t ∧ ∀ r ∈ rs, ∃ u v, P u ∧ Stepped u v r := by
  induction actions generalizing s rs with
  | nil =>
    cases h
    exact ⟨hs, by simp⟩
  | cons a rest ih =>
    obtain ⟨⟨u, now⟩, hact, h⟩ := bind_eq_ok.mp h
    obtain ⟨⟨v, later⟩, hrest, h⟩ := bind_eq_ok.mp h
    cases h
    have hnow : ∀ r ∈ now, H r := fun r hm => hr r (List.mem_append_left _ hm)
    have hlater : ∀ r ∈ later, H r := fun r hm => hr r (List.mem_append_right _ hm)
    have htail : ∀ b ∈ rest, A b := fun b hb => ha b (List.mem_cons_of_mem _ hb)
    have hone : P u ∧ ∀ r ∈ now, ∃ x y, P x ∧ Stepped x y r := by
      cases a with
      | step =>
        obtain ⟨⟨w, r⟩, hstep, h⟩ := bind_eq_ok.mp hact
        cases h
        have hd := stepped_of_step hstep
        refine ⟨hinv.step hs hd (hnow r (List.mem_singleton_self r)), ?_⟩
        intro q hq
        rw [List.mem_singleton.mp hq]
        exact ⟨s, u, hs, hd⟩
      | reset =>
        cases hact
        exact ⟨hinv.reset hs, by simp⟩
      | schedule due fact =>
        obtain ⟨⟨slot, w⟩, hsched, h⟩ := bind_eq_ok.mp hact
        cases h
        exact ⟨hinv.schedule (ha _ List.mem_cons_self) hs hsched, by simp⟩
    obtain ⟨ht, hstarts⟩ := ih hrest hone.1 htail hlater
    refine ⟨ht, ?_⟩
    intro r hm
    rcases List.mem_append.mp hm with hm | hm
    · exact hone.2 r hm
    · exact hstarts r hm

/-- The last call of a run starts where the calls before it end. -/
theorem perform_concat {s t : Simulator σ} {actions : List Action} {a : Action} {rs : List CycleRecord}
    (h : s.perform (actions ++ [a]) = .ok (t, rs)) :
    ∃ u us now, s.perform actions = .ok (u, us) ∧ u.act a = .ok (t, now) ∧ rs = us ++ now := by
  induction actions generalizing s rs with
  | nil =>
    obtain ⟨⟨u, now⟩, hact, h⟩ := bind_eq_ok.mp h
    cases h
    exact ⟨s, [], now, rfl, hact, by simp⟩
  | cons b rest ih =>
    obtain ⟨⟨u, now⟩, hact, h⟩ := bind_eq_ok.mp h
    obtain ⟨⟨v, later⟩, hrest, h⟩ := bind_eq_ok.mp h
    cases h
    obtain ⟨w, us, last, hbefore, hlast, rfl⟩ := ih hrest
    exact ⟨w, now ++ us, last, bind_eq_ok.mpr ⟨(u, now), hact, bind_eq_ok.mpr ⟨(w, us), hbefore, rfl⟩⟩, hlast,
      (List.append_assoc _ _ _).symm⟩

/-- Every cycle of a run is a step after some calls, which have seen the cycles before it. -/
theorem perform_cut {s t : Simulator σ} {actions : List Action} {rs : List CycleRecord} {k : Nat} {r : CycleRecord}
    (h : s.perform actions = .ok (t, rs)) (hk : rs[k]? = some r) :
    ∃ before u v, s.perform before = .ok (u, rs.take k) ∧ u.step = .ok (v, r) := by
  induction actions using List.reverseRecOn generalizing t rs with
  | nil =>
    cases h
    simp at hk
  | append_singleton actions a ih =>
    obtain ⟨u, us, now, hbefore, hact, rfl⟩ := perform_concat h
    by_cases hlt : k < us.length
    · rw [List.getElem?_append_left hlt] at hk
      rw [List.take_append_of_le_length (Nat.le_of_lt hlt)]
      exact ih hbefore hk
    · rw [List.getElem?_append_right (Nat.le_of_not_lt hlt)] at hk
      cases a with
      | step =>
        obtain ⟨⟨v, q⟩, hstep, hact⟩ := bind_eq_ok.mp hact
        cases hact
        obtain ⟨hzero, rfl⟩ : k - us.length = 0 ∧ q = r := by
          simpa [List.getElem?_singleton] using hk
        have hlen : k = us.length := by omega
        rw [hlen, List.take_left]
        exact ⟨actions, u, t, hbefore, hstep⟩
      | reset =>
        cases hact
        simp at hk
      | schedule due fact =>
        obtain ⟨_, _, hact⟩ := bind_eq_ok.mp hact
        cases hact
        simp at hk

/-- Induction on the last call of a run. -/
theorem perform_induction {s : Simulator σ} {P : List Action → List CycleRecord → Simulator σ → Prop} (start : P [] [] s)
    (step : ∀ {actions rs u t r}, s.perform actions = .ok (u, rs) → P actions rs u → u.step = .ok (t, r) →
      P (actions ++ [.step]) (rs ++ [r]) t)
    (reset : ∀ {actions rs u}, s.perform actions = .ok (u, rs) → P actions rs u → P (actions ++ [.reset]) rs u.reset)
    (schedule : ∀ {actions rs u t due fact slot}, s.perform actions = .ok (u, rs) → P actions rs u →
      u.schedule due fact = .ok (slot, t) → P (actions ++ [.schedule due fact]) rs t)
    {actions : List Action} {rs : List CycleRecord} {t : Simulator σ} (h : s.perform actions = .ok (t, rs)) :
    P actions rs t := by
  induction actions using List.reverseRecOn generalizing t rs with
  | nil =>
    cases h
    exact start
  | append_singleton actions a ih =>
    obtain ⟨u, us, now, hbefore, hact, rfl⟩ := perform_concat h
    have hu := ih hbefore
    cases a with
    | step =>
      obtain ⟨⟨w, r⟩, hstep, hact⟩ := bind_eq_ok.mp hact
      cases hact
      exact step hbefore hu hstep
    | reset =>
      cases hact
      rw [List.append_nil]
      exact reset hbefore hu
    | schedule due fact =>
      obtain ⟨⟨slot, w⟩, hsched, hact⟩ := bind_eq_ok.mp hact
      cases hact
      rw [List.append_nil]
      exact schedule hbefore hu hsched

/-- `P` relates the calls made and the cycles seen to the simulator, and the next step or reset keeps it. -/
structure Chronicle (P : List Action → List CycleRecord → Simulator σ → Prop) : Prop where
  step : ∀ {actions : List Action} {rs : List CycleRecord} {s t : Simulator σ} {r : CycleRecord},
    P actions rs s → s.Stepped t r → P (actions ++ [.step]) (rs ++ [r]) t
  reset : ∀ {actions : List Action} {rs : List CycleRecord} {s : Simulator σ},
    P actions rs s → P (actions ++ [.reset]) rs s.reset

theorem Chronicle.perform {P : List Action → List CycleRecord → Simulator σ → Prop} (hp : Chronicle P)
    {s t : Simulator σ} {actions : List Action} {rs : List CycleRecord} (h : s.perform actions = .ok (t, rs))
    (hs : P [] [] s) (ha : ∀ a ∈ actions, a = .step ∨ a = .reset) : P actions rs t := by
  induction actions using List.reverseRecOn generalizing t rs with
  | nil =>
    cases h
    exact hs
  | append_singleton actions a ih =>
    obtain ⟨u, us, now, hbefore, hact, rfl⟩ := perform_concat h
    have hu := ih hbefore fun b hb => ha b (List.mem_append_left _ hb)
    rcases ha a (by simp) with rfl | rfl
    · obtain ⟨⟨w, r⟩, hstep, hact⟩ := bind_eq_ok.mp hact
      cases hact
      exact hp.step hu (stepped_of_step hstep)
    · cases hact
      rw [List.append_nil]
      exact hp.reset hu

theorem exists_of_any {ε α : Type} {x : Except ε α} {test : α → Bool} (h : x.toOption.any test) :
    ∃ a, x = .ok a ∧ test a := by
  cases x with
  | error e => cases h
  | ok a => exact ⟨a, rfl, h⟩

/-- The end of a run of a program from the start, unless something is refused. -/
def trial (c : Config) (program : Array Word) (truth : BranchTable) (actions : List Action) :
    Option (Simulator LatencyPort × List CycleRecord) :=
  (ofProgram c program truth).toOption.bind fun s => (s.perform actions).toOption

theorem exists_of_trial {c : Config} {program : Array Word} {truth : BranchTable} {actions : List Action}
    {test : Simulator LatencyPort × List CycleRecord → Bool} (h : (trial c program truth actions).any test) :
    ∃ s t rs, ofProgram c program truth = .ok s ∧ s.perform actions = .ok (t, rs) ∧ test (t, rs) := by
  rw [trial, Option.any_bind] at h
  obtain ⟨s, hs, h⟩ := exists_of_any h
  obtain ⟨⟨t, rs⟩, ht, h⟩ := exists_of_any h
  exact ⟨s, t, rs, hs, ht, h⟩

end FetchStage.Simulator
