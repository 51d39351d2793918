import FetchStage.Proofs.Simulator.Delivery
import FetchStage.Proofs.Simulator.Learning
import Mathlib.Algebra.BigOperators.Group.Finset.Piecewise
import Mathlib.Algebra.GroupWithZero.Nat
import Mathlib.Data.Fintype.BigOperators

/-! # Counter transitions

A training event is counted from outside the engine, by the counter of the resolved branch before the cycle and after it. The
engine trains that very slot once, so the counts are those of the moves that the counters have made. The statistics count resolved
facts on their own, and the two totals differ by the facts that a reset has met.
-/
namespace FetchStage

instance : Fintype Counter := Fintype.ofList Counter.all fun c => by cases c <;> decide

/-- A resolved fact is presented in a reset cycle, where it has no effect. -/
def CycleRecord.ignores (r : CycleRecord) : Bool := r.inputs.reset && r.inputs.resolution.resolved

/-- A resolved fact is presented and takes effect. -/
def CycleRecord.trains (r : CycleRecord) : Bool := r.inputs.resolution.resolved && !r.inputs.reset

namespace Simulator

/-- A cycle of a run, with the simulator before and after it. -/
structure Tick (σ : Type) where
  before : Simulator σ
  record : CycleRecord
  after : Simulator σ

/-- The cycle trains, and moves the counter of the resolved branch from `f` to `g`. -/
def Tick.moves {σ : Type} (f g : Counter) (x : Tick σ) : Bool :=
  let branch := x.record.inputs.resolution.branchAddress
  x.record.trains && x.before.engine.predictor.counter branch == f && x.after.engine.predictor.counter branch == g

variable {σ : Type} [MemoryPort σ] {s t u : Simulator σ} {r : CycleRecord} {actions : List Action} {rs : List CycleRecord}

/-- The cycles of a run. -/
def ticks (s : Simulator σ) : List Action → List (Tick σ)
  | [] => []
  | a :: rest => (s.act a).toOption.elim [] fun x => x.2.map (⟨s, ·, x.1⟩) ++ x.1.ticks rest

theorem ticks_cons {a : Action} {now : List CycleRecord} (h : s.act a = .ok (t, now)) :
    s.ticks (a :: actions) = now.map (⟨s, ·, t⟩) ++ t.ticks actions := by
  rw [ticks, h]
  rfl

theorem ticks_concat {a : Action} {now : List CycleRecord} (h : s.perform actions = .ok (u, rs))
    (ha : u.act a = .ok (t, now)) : s.ticks (actions ++ [a]) = s.ticks actions ++ now.map (⟨u, ·, t⟩) := by
  induction actions generalizing s rs with
  | nil =>
    cases h
    rw [List.nil_append, ticks_cons ha]
    simp [ticks]
  | cons b rest ih =>
    obtain ⟨⟨v, first⟩, hb, h⟩ := bind_eq_ok.mp h
    obtain ⟨⟨w, later⟩, hrest, h⟩ := bind_eq_ok.mp h
    cases h
    rw [List.cons_append, ticks_cons hb, ih hrest, ticks_cons hb, List.append_assoc]

theorem step_of_mem_ticks {x : Tick σ} (hx : x ∈ s.ticks actions) : x.before.step = .ok (x.after, x.record) := by
  induction actions generalizing s with
  | nil => cases hx
  | cons a rest ih =>
    cases ha : s.act a with
    | error o =>
      rw [ticks, ha] at hx
      cases hx
    | ok y =>
      rw [ticks_cons ha] at hx
      rcases List.mem_append.mp hx with hx | hx
      · obtain ⟨r, hr, rfl⟩ := List.mem_map.mp hx
        cases a with
        | step =>
          obtain ⟨⟨v, q⟩, hstep, ha⟩ := bind_eq_ok.mp ha
          cases ha
          rw [List.mem_singleton.mp hr]
          exact hstep
        | reset =>
          cases ha
          cases hr
        | schedule due fact =>
          obtain ⟨_, _, ha⟩ := bind_eq_ok.mp ha
          cases ha
          cases hr
      · exact ih hx

section Step

theorem Stepped.resolutions_eq (h : s.Stepped t r) :
    t.stats.resolutions = s.stats.resolutions + r.inputs.resolution.resolved.toNat := by
  obtain ⟨trained, htrained, hstats⟩ := h.observed
  rw [Stats.observe_eq_ok hstats, htrained]

theorem Stepped.transition_eq (h : s.Stepped t r) (f g : Counter) :
    t.stats.transition f g = s.stats.transition f g + (Tick.moves f g ⟨s, r, t⟩).toNat := by
  obtain ⟨trained, htrain, hstats⟩ := h.stats
  have hsame : t.stats.transition f g = trained.transition f g := by
    rw [Stats.observe_eq_ok hstats]
    rfl
  rw [hsame]
  unfold recordTraining at htrain
  unfold Tick.moves CycleRecord.trains
  cases htrains : r.inputs.resolution.resolved && !r.inputs.reset with
  | false =>
    simp only [htrains, Bool.false_eq_true, if_false] at htrain
    cases htrain
    rfl
  | true =>
    simp only [htrains, if_true] at htrain
    rw [(Stats.train_eq_ok htrain).2]
    by_cases hcell : f = s.engine.predictor.counter r.inputs.resolution.branchAddress ∧
        g = t.engine.predictor.counter r.inputs.resolution.branchAddress
    · obtain ⟨rfl, rfl⟩ := hcell
      simp
    · rw [if_neg hcell]
      simp only [Bool.true_and, Nat.add_left_cancel_iff]
      symm
      rw [Bool.toNat_eq_zero, ← Bool.not_eq_true, Bool.and_eq_true, beq_iff_eq, beq_iff_eq]
      rintro ⟨rfl, rfl⟩
      exact hcell ⟨rfl, rfl⟩

/-- Exactly one cell has counted the cycle, if it trains. -/
theorem Stepped.sum_transition (h : s.Stepped t r) :
    ∑ f, ∑ g, t.stats.transition f g = ∑ f, ∑ g, s.stats.transition f g + r.trains.toNat := by
  have hone : ∀ (live : Bool) (b a : Counter), ∑ f, ∑ g, (live && b == f && a == g).toNat = live.toNat := by
    intro live b a
    cases live <;> cases b <;> cases a <;> rfl
  simp only [h.transition_eq, Finset.sum_add_distrib, Tick.moves, hone]

theorem Stepped.counter_eq (h : s.Stepped t r) (hr : r.trains) :
    t.engine.predictor.counter r.inputs.resolution.branchAddress =
      (s.engine.predictor.counter r.inputs.resolution.branchAddress).train r.inputs.resolution.taken := by
  simp only [CycleRecord.trains, Bool.and_eq_true, Bool.not_eq_true'] at hr
  rw [h.engine]
  simp only [Engine.next, hr.2, Bool.false_eq_true, if_false, Predictor.update, hr.1, if_true, Predictor.counter_train]

theorem Stepped.reset_eq (h : s.Stepped t r) : r.inputs.reset = s.pendingReset := by
  rw [h.inputs]
  rfl

theorem Stepped.ignores_eq_false (h : s.Stepped t r) (hq : s.pendingReset → s.resolver.queue = []) : r.ignores = false := by
  unfold CycleRecord.ignores
  rw [h.reset_eq, h.resolution_eq, Bool.and_eq_false_iff]
  cases hp : s.pendingReset with
  | false => exact Or.inl rfl
  | true =>
    right
    unfold Resolver.take
    rw [hq hp]
    rfl

end Step

/-- What the statistics have counted after the calls. -/
structure Tallied (s : Simulator σ) (actions : List Action) (rs : List CycleRecord) (t : Simulator σ) : Prop where
  records : (s.ticks actions).map (·.record) = rs
  transition : ∀ f g, t.stats.transition f g = (s.ticks actions).countP (·.moves f g)
  sum : ∑ f, ∑ g, t.stats.transition f g + rs.countP (·.ignores) = t.stats.resolutions

theorem Tallied.step (h : s.Tallied actions rs u) (hu : s.perform actions = .ok (u, rs)) (hstep : u.step = .ok (t, r)) :
    s.Tallied (actions ++ [.step]) (rs ++ [r]) t := by
  have hs := stepped_of_step hstep
  have hact : u.act .step = .ok (t, [r]) := bind_eq_ok.mpr ⟨_, hstep, rfl⟩
  have hticks : s.ticks (actions ++ [.step]) = s.ticks actions ++ [⟨u, r, t⟩] := ticks_concat hu hact
  refine ⟨?_, ?_, ?_⟩
  · rw [hticks, List.map_append, h.records]
    rfl
  · intro f g
    rw [hticks, countP_concat, hs.transition_eq, h.transition]
  · have hfact : r.inputs.resolution.resolved.toNat = r.trains.toNat + r.ignores.toNat := by
      unfold CycleRecord.trains CycleRecord.ignores
      cases r.inputs.resolution.resolved <;> cases r.inputs.reset <;> rfl
    rw [countP_concat, hs.sum_transition, hs.resolutions_eq, ← h.sum, hfact]
    omega

/-- A call without a cycle changes nothing that is counted. -/
theorem Tallied.call {a : Action} (h : s.Tallied actions rs u) (hu : s.perform actions = .ok (u, rs))
    (hact : u.act a = .ok (t, [])) (hstats : t.stats = u.stats) : s.Tallied (actions ++ [a]) rs t := by
  have hticks : s.ticks (actions ++ [a]) = s.ticks actions := by
    rw [ticks_concat hu hact]
    exact List.append_nil _
  refine ⟨?_, ?_, ?_⟩
  · rw [hticks, h.records]
  · rw [hticks, hstats]
    exact h.transition
  · rw [hstats]
    exact h.sum

theorem tallied_perform (hs : s.stats = {}) (h : s.perform actions = .ok (t, rs)) : s.Tallied actions rs t := by
  apply perform_induction (P := fun actions rs t => s.Tallied actions rs t) _ _ _ _ h
  · refine ⟨rfl, ?_, ?_⟩
    · intro f g
      rw [hs]
      cases f <;> cases g <;> rfl
    · rw [hs]
      rfl
  · intro actions rs u t r hu hp hstep
    exact hp.step hu hstep
  · intro actions rs u hu hp
    exact hp.call hu rfl rfl
  · intro actions rs u t due fact slot hu hp hsched
    refine hp.call hu (bind_eq_ok.mpr ⟨_, hsched, rfl⟩) ?_
    rw [schedule_eq_ok hsched]

/-- Nothing is scheduled between a reset and the step that follows it. -/
def ResetsAlone (actions : List Action) : Prop :=
  ∀ before between due fact after, actions = before ++ .reset :: (between ++ .schedule due fact :: after) → .step ∈ between

theorem ResetsAlone.init {a : Action} (h : ResetsAlone (actions ++ [a])) : ResetsAlone actions := by
  rintro before between due fact after rfl
  exact h before between due fact (after ++ [a]) (by simp)

/-- While a reset waits, it is the last call but for further resets, and the queue is empty. -/
structure Alone (actions : List Action) (rs : List CycleRecord) (s : Simulator σ) : Prop where
  queue : s.pendingReset → s.resolver.queue = []
  waits : s.pendingReset → ∃ before between, actions = before ++ .reset :: between ∧ .step ∉ between
  ignores : rs.countP (·.ignores) = 0

theorem alone_perform (hs : s.pendingReset = false) (h : s.perform actions = .ok (t, rs)) (ha : ResetsAlone actions) :
    Alone actions rs t := by
  revert ha
  apply perform_induction (P := fun actions rs t => ResetsAlone actions → Alone actions rs t) _ _ _ _ h
  · intro _
    exact ⟨by simp [hs], by simp [hs], rfl⟩
  · intro actions rs u t r _ hp hstep ha
    have hu := hp ha.init
    have hd := stepped_of_step hstep
    have hdone : t.pendingReset = false := by rw [hd.rest]
    refine ⟨by simp [hdone], by simp [hdone], ?_⟩
    rw [countP_concat, hu.ignores, hd.ignores_eq_false hu.queue]
    rfl
  · intro actions rs u _ hp ha
    exact ⟨fun _ => rfl, fun _ => ⟨actions, [], rfl, by simp⟩, (hp ha.init).ignores⟩
  · intro actions rs u t due fact slot _ hp hsched ha
    have hu := hp ha.init
    have hsame : t.pendingReset = u.pendingReset := by rw [schedule_eq_ok hsched]
    have hnone : u.pendingReset = false := by
      by_contra hwaits
      obtain ⟨before, between, rfl, hstep⟩ := hu.waits (by simpa using hwaits)
      exact hstep (ha before between due fact [] (by simp))
    exact ⟨by simp [hsame, hnone], by simp [hsame, hnone], hu.ignores⟩

/-- In any run, a count of transitions is the number of cycles that have moved a counter so, one training step away. All counts
together are the resolved facts, less those presented in a reset cycle; there are none of these unless a fact is scheduled
between a reset and its cycle. -/
theorem perform_transitions (c : Config) (port : σ) (image : Image) (truth : BranchTable) (actions : List Action)
    (rs : List CycleRecord) (s t : Simulator σ) (hs : withPort c port image truth = .ok s)
    (h : s.perform actions = .ok (t, rs)) :
    (s.ticks actions).map (·.record) = rs ∧
    (∀ f g, t.stats.transition f g = (s.ticks actions).countP (·.moves f g)) ∧
    (∀ f g, t.stats.transition f g ≠ 0 → ∃ taken, g = f.train taken) ∧
    ∑ f, ∑ g, t.stats.transition f g + rs.countP (·.ignores) = t.stats.resolutions ∧
    (ResetsAlone actions → rs.countP (·.ignores) = 0) := by
  obtain ⟨_, _, hs⟩ := bind_eq_ok.mp hs
  cases hs
  have htallied := tallied_perform rfl h
  refine ⟨htallied.records, htallied.transition, ?_, htallied.sum, fun ha => (alone_perform rfl h ha).ignores⟩
  intro f g hne
  rw [htallied.transition, ← Nat.pos_iff_ne_zero, List.countP_pos_iff] at hne
  obtain ⟨x, hx, hmoves⟩ := hne
  simp only [Tick.moves, Bool.and_eq_true, beq_iff_eq] at hmoves
  obtain ⟨⟨htrains, rfl⟩, rfl⟩ := hmoves
  exact ⟨_, (stepped_of_step (step_of_mem_ticks hx)).counter_eq htrains⟩

/-- Two branches of one slot, and a reset between them. If the second is scheduled after the step of the reset, it trains the slot
from its reset state; if it is scheduled before that step and for its cycle, it is counted as resolved but trains nothing. -/
theorem perform_transitions_reset :
    ∃ f g : Resolution, f = ⟨true, true, 0x40, 0x100⟩ ∧ g = ⟨true, false, 0x440, 0x80⟩ ∧
      (∃ s t rs, ofProgram {} #[0x13, 0x93] .empty = .ok s ∧
        s.perform [.schedule 1 f, .step, .step, .reset, .step, .schedule 3 g, .step] = .ok (t, rs) ∧
        ResetsAlone [.schedule 1 f, .step, .step, .reset, .step, .schedule 3 g, .step] ∧
        t.stats.transition .weakNotTaken .weakTaken = 1 ∧ t.stats.transition .weakNotTaken .strongNotTaken = 1 ∧
        t.stats.resolutions = 2 ∧ rs.countP (·.ignores) = 0 ∧
        ∑ f, ∑ g, t.stats.transition f g + rs.countP (·.ignores) = t.stats.resolutions) ∧
      ∃ s t rs, ofProgram {} #[0x13, 0x93] .empty = .ok s ∧
        s.perform [.schedule 1 f, .step, .step, .reset, .schedule 2 g, .step, .step] = .ok (t, rs) ∧
        t.stats.resolutions = 2 ∧ rs.countP (·.ignores) = 1 ∧
        ∑ f, ∑ g, t.stats.transition f g + rs.countP (·.ignores) = t.stats.resolutions := by
  let f : Resolution := ⟨true, true, 0x40, 0x100⟩
  let g : Resolution := ⟨true, false, 0x440, 0x80⟩
  refine ⟨f, g, rfl, rfl, ?_, ?_⟩
  · have htrial : (trial {} #[0x13, 0x93] .empty
        [.schedule 1 f, .step, .step, .reset, .step, .schedule 3 g, .step]).any fun x =>
          x.1.stats.transition .weakNotTaken .weakTaken == 1 &&
            x.1.stats.transition .weakNotTaken .strongNotTaken == 1 && x.1.stats.resolutions == 2 := by decide +kernel
    obtain ⟨s, t, rs, hs, h, htest⟩ := exists_of_trial htrial
    simp only [Bool.and_eq_true, beq_iff_eq] at htest
    have halone : ResetsAlone [.schedule 1 f, .step, .step, .reset, .step, .schedule 3 g, .step] := by
      intro before between due fact after hcalls
      obtain ⟨_, hrest⟩ : before = [.schedule 1 f, .step, .step] ∧
          between ++ .schedule due fact :: after = [.step, .schedule 3 g, .step] := by
        simpa [List.cons_eq_append_iff] using hcalls
      cases between with
      | nil => cases hrest
      | cons a between =>
        rw [(List.cons.inj hrest).1]
        exact List.mem_cons_self
    obtain ⟨_, _, _, hsum, hnone⟩ := perform_transitions {} _ _ _ _ rs s t hs h
    exact ⟨s, t, rs, hs, h, halone, htest.1.1, htest.1.2, htest.2, hnone halone, hsum⟩
  · have htrial : (trial {} #[0x13, 0x93] .empty
        [.schedule 1 f, .step, .step, .reset, .schedule 2 g, .step, .step]).any fun x =>
          x.1.stats.resolutions == 2 && x.2.countP (·.ignores) == 1 := by decide +kernel
    obtain ⟨s, t, rs, hs, h, htest⟩ := exists_of_trial htrial
    simp only [Bool.and_eq_true, beq_iff_eq] at htest
    obtain ⟨_, _, _, hsum, _⟩ := perform_transitions {} _ _ _ _ rs s t hs h
    exact ⟨s, t, rs, hs, h, htest.1, htest.2, hsum⟩

end Simulator

end FetchStage
