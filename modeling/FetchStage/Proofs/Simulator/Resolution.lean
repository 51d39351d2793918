import FetchStage.Proofs.Resolver.Queue
import FetchStage.Proofs.Simulator.Learning

/-! # When branches resolve

As long as no fact is scheduled from outside, the queue is a delay line: it holds the branches of the last cycles, as
many as the delay, and a reset cuts off those before it. Each fact is then the last one in the queue when it enters and
the first one when it is due, so it is presented on the very cycle that the delay names.
-/
namespace FetchStage

/-- The fact of a known branch, or the idle one. -/
def Resolution.ofBranch : Option BranchRecord → Resolution
  | some b => b.resolution
  | none => .idle

theorem Resolution.ofBranch_eq_resolution {o : Option BranchRecord} {b : BranchRecord} :
    ofBranch o = b.resolution ↔ o = some b := by
  rcases b with ⟨pc, taken, target⟩
  cases o with
  | none => simp [ofBranch, idle, BranchRecord.resolution]
  | some a =>
    rcases a with ⟨pc', taken', target'⟩
    simp only [ofBranch, BranchRecord.resolution, Resolution.mk.injEq, Option.some.injEq, BranchRecord.mk.injEq]
    tauto

theorem Resolution.ofBranch_eq_idle {o : Option BranchRecord} : ofBranch o = .idle ↔ o = none := by
  cases o <;> simp [ofBranch, idle, BranchRecord.resolution]

namespace BranchTable

/-- The known branch that a cycle delivers. -/
def delivered (truth : BranchTable) (r : CycleRecord) : Option BranchRecord :=
  if r.outputs.valid then truth.lookup r.outputs.pc else none

/-- The facts of the branches delivered on these cycles, each beside the cycle it is due on. -/
def outcomes (truth : BranchTable) (delay : Nat) (rs : List CycleRecord) : List (Nat × Resolution) :=
  rs.filterMap fun r => (truth.delivered r).map fun b => (r.cycle + delay, b.resolution)

variable {truth : BranchTable} {delay : Nat}

theorem delivered_eq_some {r : CycleRecord} {b : BranchRecord} :
    truth.delivered r = some b ↔ r.outputs.valid ∧ truth.lookup r.outputs.pc = some b := by
  unfold delivered
  split <;> simp [*]

theorem outcomes_append (rs us : List CycleRecord) :
    truth.outcomes delay (rs ++ us) = truth.outcomes delay rs ++ truth.outcomes delay us :=
  List.filterMap_append

theorem outcomes_cons (r : CycleRecord) (rs : List CycleRecord) :
    truth.outcomes delay (r :: rs) =
      match truth.delivered r with
      | some b => (r.cycle + delay, b.resolution) :: truth.outcomes delay rs
      | none => truth.outcomes delay rs := by
  unfold outcomes
  cases h : truth.delivered r <;> simp [h]

theorem length_outcomes_le (rs : List CycleRecord) : (truth.outcomes delay rs).length ≤ rs.length :=
  List.length_filterMap_le _ _

end BranchTable

namespace Simulator
variable {σ : Type} [MemoryPort σ] {truth : BranchTable} {delay start : Nat} {actions : List Action}
  {rs : List CycleRecord} {s t : Simulator σ} {r : CycleRecord}

/-- A reset is called once `n` steps have been made. -/
def ResetAfter (actions : List Action) (n : Nat) : Prop :=
  ∃ before after, actions = before ++ .reset :: after ∧ before.count .step = n

theorem resetAfter_concat {a : Action} {n : Nat} :
    ResetAfter (actions ++ [a]) n ↔ ResetAfter actions n ∨ a = .reset ∧ actions.count .step = n := by
  constructor
  · rintro ⟨before, after, h, hn⟩
    rcases List.eq_nil_or_concat after with rfl | ⟨rest, last, rfl⟩
    · obtain ⟨rfl, ha⟩ := List.append_inj' h rfl
      exact Or.inr ⟨List.singleton_inj.mp ha, hn⟩
    · rw [List.concat_eq_append, ← List.cons_append, ← List.append_assoc] at h
      exact Or.inl ⟨before, rest, (List.append_inj' h rfl).1, hn⟩
  · rintro (⟨before, after, rfl, hn⟩ | ⟨rfl, hn⟩)
    · exact ⟨before, after ++ [a], by simp, hn⟩
    · exact ⟨actions, [], rfl, hn⟩

/-- Record `n` is that of cycle `n`. -/
def Numbered (rs : List CycleRecord) : Prop := ∀ (n : Nat) (r : CycleRecord), rs[n]? = some r → r.cycle = n

theorem Numbered.concat (h : Numbered rs) (hr : r.cycle = rs.length) : Numbered (rs ++ [r]) := by
  intro n x hx
  rw [List.getElem?_append] at hx
  split at hx
  · exact h n x hx
  · have hn : n = rs.length := by
      have hlt := (List.getElem?_eq_some_iff.mp hx).1
      simp only [List.length_singleton] at hlt
      omega
    subst hn
    simp only [Nat.sub_self, List.getElem?_cons_zero, Option.some.injEq] at hx
    rw [← hx, hr]

theorem Numbered.lt_length (h : Numbered rs) (hr : r ∈ rs) : r.cycle < rs.length := by
  obtain ⟨n, hn⟩ := List.mem_iff_getElem?.mp hr
  rw [h n r hn]
  exact (List.getElem?_eq_some_iff.mp hn).1

theorem Numbered.mem_iff (h : Numbered rs) {n : Nat} : r ∈ rs ∧ r.cycle = n ↔ rs[n]? = some r := by
  constructor
  · rintro ⟨hr, rfl⟩
    obtain ⟨m, hm⟩ := List.mem_iff_getElem?.mp hr
    rw [h m r hm, hm]
  · intro hn
    exact ⟨List.mem_of_getElem? hn, h n r hn⟩

theorem Numbered.map_cycle (h : Numbered rs) : rs.map (·.cycle) = List.range rs.length := by
  apply List.ext_getElem (by simp)
  intro n hn _
  rw [List.length_map] at hn
  rw [List.getElem_map, List.getElem_range]
  exact h n rs[n] (List.getElem?_eq_getElem hn)

/-- When the facts that the cycles from `k` on leave are due. -/
theorem Numbered.due_bounds (h : Numbered rs) {k : Nat} {x : Nat × Resolution}
    (hx : x ∈ truth.outcomes delay (rs.drop k)) : k + delay ≤ x.1 ∧ x.1 < rs.length + delay := by
  obtain ⟨r, hr, hb⟩ := List.mem_filterMap.mp hx
  obtain ⟨b, _, rfl⟩ := Option.map_eq_some_iff.mp hb
  obtain ⟨j, hj⟩ := List.mem_iff_getElem?.mp hr
  rw [List.getElem?_drop] at hj
  have hlt := h.lt_length (List.mem_of_getElem? hj)
  have hcycle := h _ r hj
  simp only
  omega

theorem Numbered.take_idle (h : Numbered rs) {q : Resolver} {k : Nat}
    (hq : q.queue = truth.outcomes delay (rs.drop k)) (hk : rs.length < k + delay) :
    q.take rs.length = (.idle, q) := by
  apply Resolver.take_of_lt
  intro x hx
  rw [hq] at hx
  have hbounds := h.due_bounds hx
  omega

/-- The branch delivered `delay` cycles before cycle `n`, with no reset called in between. -/
structure Due (truth : BranchTable) (delay : Nat) (actions : List Action) (rs : List CycleRecord) (n : Nat)
    (b : BranchRecord) : Prop where
  late : delay ≤ n
  delivered : ∃ r ∈ rs, r.cycle = n - delay ∧ r.outputs.valid ∧ truth.lookup r.outputs.pc = some b
  kept : ∀ k, n - delay < k → k ≤ n → ¬ResetAfter actions k

/-- The cycle presents the branch that is due on it, and nothing if there is none. -/
structure Presents (truth : BranchTable) (delay : Nat) (actions : List Action) (rs : List CycleRecord)
    (r : CycleRecord) : Prop where
  fact : ∀ b, r.inputs.resolution = b.resolution ↔ Due truth delay actions rs r.cycle b
  idle : r.inputs.resolution = .idle ↔ ¬∃ b, Due truth delay actions rs r.cycle b

/-- The queue holds what the last `delay` cycles since step `start`, the last reset, have delivered. -/
structure Timely (truth : BranchTable) (delay start : Nat) (actions : List Action) (rs : List CycleRecord)
    (s : Simulator σ) : Prop where
  truth_eq : s.truth = truth
  delay_eq : s.resolver.delay = delay
  delay_pos : 0 < delay
  steps : actions.count .step = rs.length
  cycle : s.cycle = rs.length
  numbered : Numbered rs
  start_le : start ≤ rs.length
  last_reset : start = 0 ∨ ResetAfter actions start
  no_later_reset : ∀ k, ResetAfter actions k → k ≤ start
  queue : s.resolver.queue = truth.outcomes delay (rs.drop (max start (rs.length - delay)))

/-- The branch that a step after these cycles resolves. -/
def dueBranch (truth : BranchTable) (delay start : Nat) (rs : List CycleRecord) : Option BranchRecord :=
  if start + delay ≤ rs.length then rs[rs.length - delay]?.bind truth.delivered else none

omit [MemoryPort σ] in
theorem Timely.take (h : s.Timely truth delay start actions rs) :
    s.resolver.take s.cycle = (.ofBranch (dueBranch truth delay start rs),
      { s.resolver with queue := truth.outcomes delay (rs.drop (max start (rs.length + 1 - delay))) }) := by
  have hpos := h.delay_pos
  have hq := h.queue
  rw [h.cycle]
  by_cases hd : start + delay ≤ rs.length
  · have hlt : rs.length - delay < rs.length := by omega
    have hold : max start (rs.length - delay) = rs.length - delay := by omega
    have hnew : max start (rs.length + 1 - delay) = rs.length - delay + 1 := by omega
    have hcycle : rs[rs.length - delay].cycle = rs.length - delay :=
      h.numbered _ _ (List.getElem?_eq_getElem hlt)
    rw [hold, List.drop_eq_getElem_cons hlt, BranchTable.outcomes_cons] at hq
    rw [hnew, dueBranch, if_pos hd, List.getElem?_eq_getElem hlt, Option.bind_some]
    cases hb : truth.delivered rs[rs.length - delay] with
    | none =>
      rw [hb] at hq
      simp only at hq
      rw [← hq]
      exact h.numbered.take_idle hq (by omega)
    | some b =>
      rw [hb] at hq
      exact Resolver.take_of_due hq (by omega)
  · have hsame : max start (rs.length + 1 - delay) = max start (rs.length - delay) := by omega
    rw [hsame, dueBranch, if_neg hd, ← hq]
    exact h.numbered.take_idle hq (by omega)

theorem Timely.presented (h : s.Timely truth delay start actions rs) (hd : s.Stepped t r) :
    r.inputs.resolution = .ofBranch (dueBranch truth delay start rs) := by
  rw [hd.resolution_eq, h.take]

theorem Timely.resolver_step (h : s.Timely truth delay start actions rs) (hd : s.Stepped t r) :
    t.resolver = { s.resolver with
      queue := truth.outcomes delay (rs.drop (max start (rs.length + 1 - delay)) ++ [r]) } := by
  have hfeed := hd.feedback
  have hsame : s.deliveredBranch r.outputs = truth.delivered r := by
    rw [deliveredBranch, h.truth_eq]
    rfl
  rw [hsame, h.take] at hfeed
  rw [BranchTable.outcomes_append, BranchTable.outcomes_cons]
  cases hb : truth.delivered r with
  | none =>
    rw [hb] at hfeed
    simpa [BranchTable.outcomes] using hfeed
  | some b =>
    rw [hb] at hfeed
    obtain ⟨slot, hfeed⟩ := hfeed
    have hlt : ∀ x ∈ truth.outcomes delay (rs.drop (max start (rs.length + 1 - delay))),
        x.1 < s.cycle + s.resolver.delay := by
      intro x hx
      rw [h.cycle, h.delay_eq]
      exact (h.numbered.due_bounds hx).2
    rw [Resolver.scheduleAfter_of_lt hlt hfeed]
    simp [BranchTable.outcomes, hd.cycle, h.delay_eq]

theorem Timely.step (h : s.Timely truth delay start actions rs) (hd : s.Stepped t r) :
    t.Timely truth delay start (actions ++ [.step]) (rs ++ [r]) := by
  have hpos := h.delay_pos
  have hle := h.start_le
  have hreset : ∀ k, ResetAfter (actions ++ [.step]) k ↔ ResetAfter actions k := by
    intro k
    simp [resetAfter_concat]
  refine ⟨?_, ?_, hpos, ?_, ?_, ?_, ?_, ?_, ?_, ?_⟩
  · rw [hd.rest]
    exact h.truth_eq
  · rw [h.resolver_step hd]
    exact h.delay_eq
  · simp [h.steps]
  · have hcycle := h.cycle
    simp only [Simulator.cycle, hd.engine, List.length_append, List.length_singleton] at hcycle ⊢
    omega
  · exact h.numbered.concat (hd.cycle.trans h.cycle)
  · rw [List.length_append]
    omega
  · rw [hreset]
    exact h.last_reset
  · intro k hk
    exact h.no_later_reset k ((hreset k).mp hk)
  · have hk : max start (rs.length + 1 - delay) ≤ rs.length := by omega
    rw [h.resolver_step hd, List.length_append, List.length_singleton, List.drop_append_of_le_length hk]

omit [MemoryPort σ] in
theorem Timely.reset (h : s.Timely truth delay start actions rs) :
    s.reset.Timely truth delay rs.length (actions ++ [.reset]) rs := by
  refine ⟨h.truth_eq, h.delay_eq, h.delay_pos, by simp [h.steps], h.cycle, h.numbered, Nat.le_refl _, ?_, ?_, ?_⟩
  · exact Or.inr (resetAfter_concat.mpr (Or.inr ⟨rfl, h.steps⟩))
  · intro k hk
    rcases resetAfter_concat.mp hk with hk | ⟨_, hk⟩
    · exact Nat.le_trans (h.no_later_reset k hk) h.start_le
    · exact Nat.le_of_eq (hk.symm.trans h.steps)
  · have hdrop : rs.drop (max rs.length (rs.length - delay)) = [] := List.drop_eq_nil_of_le (by omega)
    rw [hdrop]
    rfl

omit [MemoryPort σ] in
theorem Timely.due_iff (h : s.Timely truth delay start actions rs) {b : BranchRecord} :
    Due truth delay actions rs rs.length b ↔ dueBranch truth delay start rs = some b := by
  have hle := h.start_le
  have hunreset : delay ≤ rs.length →
      ((∀ k, rs.length - delay < k → k ≤ rs.length → ¬ResetAfter actions k) ↔ start + delay ≤ rs.length) := by
    intro hlate
    constructor
    · intro hk
      by_contra hlt
      rcases h.last_reset with hzero | hlast
      · omega
      · exact hk start (by omega) hle hlast
    · intro hs k hk _ hr
      have hks := h.no_later_reset k hr
      omega
  unfold dueBranch
  constructor
  · rintro ⟨hlate, ⟨r, hr, hcycle, hvalid, hlook⟩, hk⟩
    rw [if_pos ((hunreset hlate).mp hk), h.numbered.mem_iff.mp ⟨hr, hcycle⟩, Option.bind_some]
    exact BranchTable.delivered_eq_some.mpr ⟨hvalid, hlook⟩
  · intro hb
    split at hb
    · rename_i hs
      have hlate : delay ≤ rs.length := by omega
      obtain ⟨r, hr, hb⟩ := Option.bind_eq_some_iff.mp hb
      obtain ⟨hm, hcycle⟩ := h.numbered.mem_iff.mpr hr
      obtain ⟨hvalid, hlook⟩ := BranchTable.delivered_eq_some.mp hb
      exact ⟨hlate, ⟨r, hm, hcycle, hvalid, hlook⟩, (hunreset hlate).mpr hs⟩
    · cases hb

/-- What happens from cycle `n` on does not change what was due on it. -/
theorem due_congr {a : Action} {now : List CycleRecord} {n : Nat} {b : BranchRecord} (hpos : 0 < delay)
    (hn : n ≤ rs.length) (hcount : n < actions.count .step ∨ a ≠ .reset) (hnow : ∀ r ∈ now, r.cycle = rs.length) :
    Due truth delay (actions ++ [a]) (rs ++ now) n b ↔ Due truth delay actions rs n b := by
  have hreset : ∀ k, k ≤ n → (ResetAfter (actions ++ [a]) k ↔ ResetAfter actions k) := by
    intro k hk
    rw [resetAfter_concat]
    refine ⟨?_, Or.inl⟩
    rintro (hr | ⟨ha, hr⟩)
    · exact hr
    · rcases hcount with hlt | hne
      · omega
      · exact absurd ha hne
  constructor
  · rintro ⟨hlate, ⟨r, hr, hcycle, hb⟩, hk⟩
    have hold : r ∈ rs := by
      rcases List.mem_append.mp hr with hr | hr
      · exact hr
      · have hc := hnow r hr
        omega
    exact ⟨hlate, ⟨r, hold, hcycle, hb⟩, fun k hlt hle hr => hk k hlt hle ((hreset k hle).mpr hr)⟩
  · rintro ⟨hlate, ⟨r, hr, hcycle, hb⟩, hk⟩
    exact ⟨hlate, ⟨r, List.mem_append_left _ hr, hcycle, hb⟩,
      fun k hlt hle hr => hk k hlt hle ((hreset k hle).mp hr)⟩

theorem presents_congr {a : Action} {now : List CycleRecord} (hpos : 0 < delay)
    (hr : r.cycle ≤ rs.length) (hcount : r.cycle < actions.count .step ∨ a ≠ .reset)
    (hnow : ∀ x ∈ now, x.cycle = rs.length) :
    Presents truth delay (actions ++ [a]) (rs ++ now) r ↔ Presents truth delay actions rs r := by
  have hdue : ∀ b, Due truth delay (actions ++ [a]) (rs ++ now) r.cycle b ↔ Due truth delay actions rs r.cycle b :=
    fun _ => due_congr hpos hr hcount hnow
  constructor
  · rintro ⟨hfact, hidle⟩
    simp only [hdue] at hfact hidle
    exact ⟨hfact, hidle⟩
  · rintro ⟨hfact, hidle⟩
    constructor
    · simpa only [hdue] using hfact
    · simpa only [hdue] using hidle

theorem Timely.presents (h : s.Timely truth delay start actions rs) (hd : s.Stepped t r) :
    Presents truth delay actions rs r := by
  have hfact := h.presented hd
  have hcycle : r.cycle = rs.length := hd.cycle.trans h.cycle
  constructor
  · intro b
    rw [hcycle, hfact, h.due_iff, Resolution.ofBranch_eq_resolution]
  · rw [hcycle, hfact, Resolution.ofBranch_eq_idle]
    simp only [h.due_iff, Option.eq_none_iff_forall_ne_some, not_exists]

theorem chronicle_timely (truth : BranchTable) (delay : Nat) :
    Chronicle fun actions rs (s : Simulator σ) =>
      (∃ start, s.Timely truth delay start actions rs) ∧ ∀ r ∈ rs, Presents truth delay actions rs r where
  step := by
    rintro actions rs s t r ⟨⟨start, h⟩, hall⟩ hd
    have hcycle : r.cycle = rs.length := hd.cycle.trans h.cycle
    have hnow : ∀ x ∈ [r], x.cycle = rs.length := by simpa using hcycle
    refine ⟨⟨start, h.step hd⟩, ?_⟩
    intro x hx
    rcases List.mem_append.mp hx with hx | hx
    · have hlt := h.numbered.lt_length hx
      exact (presents_congr h.delay_pos (by omega) (Or.inr (by simp)) hnow).mpr (hall x hx)
    · rw [List.mem_singleton.mp hx]
      exact (presents_congr h.delay_pos (by omega) (Or.inr (by simp)) hnow).mpr (h.presents hd)
  reset := by
    rintro actions rs s ⟨⟨start, h⟩, hall⟩
    refine ⟨⟨rs.length, h.reset⟩, ?_⟩
    intro x hx
    have hlt := h.numbered.lt_length hx
    have hcount := h.steps
    rw [← List.append_nil rs]
    exact (presents_congr h.delay_pos (by omega) (Or.inl (by omega)) (by simp)).mpr (hall x hx)

omit [MemoryPort σ] in
theorem timely_withPort {c : Config} {port : σ} {image : Image} (h : withPort c port image truth = .ok s) :
    s.Timely truth c.resolution.delay 0 [] [] := by
  obtain ⟨_, hvalid, h⟩ := bind_eq_ok.mp h
  cases h
  refine ⟨rfl, rfl, (Config.validate_eq_ok.mp hvalid).delay, rfl, rfl, by simp [Numbered], Nat.le_refl _, Or.inl rfl, ?_, ?_⟩
  · rintro k ⟨before, after, hnil, _⟩
    simp at hnil
  · rw [List.drop_nil]
    rfl

omit [MemoryPort σ] in
theorem Timely.pending_le (h : s.Timely truth delay start actions rs) : s.resolver.pending ≤ delay := by
  rw [Resolver.pending, h.queue]
  apply Nat.le_trans (BranchTable.length_outcomes_le _)
  rw [List.length_drop]
  omega

/-- As long as no fact is scheduled from outside, each cycle presents the branch that was delivered `delay` cycles
before, unless a reset was called since, and otherwise nothing; the queue never holds more than `delay` facts. -/
theorem perform_resolutions (c : Config) (port : σ) (image : Image) (truth : BranchTable) (actions : List Action)
    (rs : List CycleRecord) (s t : Simulator σ) (hs : withPort c port image truth = .ok s)
    (ha : ∀ a ∈ actions, a = .step ∨ a = .reset) (h : s.perform actions = .ok (t, rs)) :
    rs.map (·.cycle) = List.range (actions.count .step) ∧
    (∀ r ∈ rs, Presents truth c.resolution.delay actions rs r) ∧
    t.resolver.pending ≤ c.resolution.delay := by
  have hfresh := timely_withPort hs
  obtain ⟨⟨start, ht⟩, hall⟩ := (chronicle_timely truth c.resolution.delay).perform h ⟨⟨0, hfresh⟩, by simp⟩ ha
  refine ⟨?_, hall, ht.pending_le⟩
  rw [ht.steps]
  exact ht.numbered.map_cycle

/-- Two branches in a row with a delay of three: their facts wait together, and a reset drops the second. -/
theorem perform_resolutions_reset :
    ∃ s t rs, ofProgram { resolution := ⟨3⟩ } #[0x13, 0x63, 0x63, 0x93]
        (.ofRecords [⟨0x4, false, 0x40⟩, ⟨0x8, false, 0x40⟩]) = .ok s ∧
      s.perform (List.replicate 6 .step ++ .reset :: List.replicate 8 .step) = .ok (t, rs) ∧
      (rs.filter (·.inputs.resolution.resolved)).map (·.cycle) = [5, 12, 13] ∧
      rs.map (·.cycle) = List.range 14 ∧
      (∀ r ∈ rs, Presents (.ofRecords [⟨0x4, false, 0x40⟩, ⟨0x8, false, 0x40⟩]) 3
        (List.replicate 6 .step ++ .reset :: List.replicate 8 .step) rs r) ∧
      t.resolver.pending ≤ 3 := by
  have htrial : (trial { resolution := ⟨3⟩ } #[0x13, 0x63, 0x63, 0x93]
      (.ofRecords [⟨0x4, false, 0x40⟩, ⟨0x8, false, 0x40⟩])
      (List.replicate 6 .step ++ .reset :: List.replicate 8 .step)).any fun x =>
        (x.2.filter (·.inputs.resolution.resolved)).map (·.cycle) == [5, 12, 13] := by
    decide +kernel
  obtain ⟨s, t, rs, hs, h, htest⟩ := exists_of_trial htrial
  rw [beq_iff_eq] at htest
  exact ⟨s, t, rs, hs, h, htest, perform_resolutions { resolution := ⟨3⟩ } _ _ _ _ rs s t hs (by decide) h⟩

end Simulator

end FetchStage
