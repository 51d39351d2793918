import FetchStage.Scoreboard
import FetchStage.Stats.Basic
import FetchStage.Proofs.Engine.Cycle

/-! # What the observers count

The statistics add one cycle's signals to their totals, and training adds to a single transition. The scoreboard only
ever adds to its matches when the words delivered are those of its image. Each total grows by at most one in a cycle, so
none exceeds the number of cycles, and no cycle is refused while that number is in range.
-/
namespace FetchStage

namespace Count

theorem tally_of_le {m n : Nat} (b : Bool) (h : m ≤ n) (hn : n + 1 < limit) : tally m b = .ok (m + b.toNat) := by
  have hb := b.toNat_le
  exact tally_eq_ok_iff.mpr ⟨rfl, by omega⟩

theorem succ_of_le {m n : Nat} (h : m ≤ n) (hn : n + 1 < limit) : succ m = .ok (m + 1) := succ_of_lt (by omega)

end Count

theorem countP_concat {α : Type} (p : α → Bool) (xs : List α) (x : α) : (xs ++ [x]).countP p = xs.countP p + (p x).toNat := by
  rw [List.countP_append, List.countP_singleton]
  cases p x <;> rfl

namespace Stats

/-- Every total after a cycle. The transitions are left alone. -/
theorem observe_eq_ok {s t : Stats} {r : CycleRecord} (h : s.observe r = .ok t) :
    t = { s with
      cycles := s.cycles + 1
      requests := s.requests + r.outputs.request.readEnable.toNat
      predictorLookups := s.predictorLookups + r.outputs.request.readEnable.toNat
      predictorHits := s.predictorHits + r.outputs.prediction.valid.toNat
      predictedTaken := s.predictedTaken + r.outputs.prediction.redirects.toNat
      resolutions := s.resolutions + r.inputs.resolution.resolved.toNat
      mispredictions := s.mispredictions + r.outputs.mispredicted.toNat
      flushes := s.flushes + r.outputs.flush.toNat
      wordsBuffered := s.wordsBuffered + r.outputs.wrote.toNat
      wordsDelivered := s.wordsDelivered + r.outputs.valid.toNat
      droppedResponses := s.droppedResponses + r.outputs.dropped.toNat
      stallCycles := s.stallCycles + r.inputs.stall.toNat
      fullCycles := s.fullCycles + r.outputs.bufferFull.toNat
      emptyCycles := s.emptyCycles + r.outputs.bufferEmpty.toNat
      occupancy := overwrite s.occupancy (level r.outputs.occupancy)
        (s.occupancy.get (level r.outputs.occupancy) + 1) } := by
  simp only [observe, bind_eq_ok, Count.succ_eq_ok_iff, Count.tally_eq_ok_iff] at h
  obtain ⟨_, ⟨hcycles, _⟩, _, ⟨hrequests, _⟩, _, ⟨hlookups, _⟩, _, ⟨hhits, _⟩, _, ⟨htaken, _⟩, _, ⟨hresolved, _⟩,
    _, ⟨hmissed, _⟩, _, ⟨hflushes, _⟩, _, ⟨hbuffered, _⟩, _, ⟨hdelivered, _⟩, _, ⟨hdropped, _⟩, _, ⟨hstalls, _⟩,
    _, ⟨hfull, _⟩, _, ⟨hempty, _⟩, _, ⟨hvisits, _⟩, h⟩ := h
  cases h
  simp only [hcycles, hrequests, hlookups, hhits, htaken, hresolved, hmissed, hflushes, hbuffered, hdelivered, hdropped,
    hstalls, hfull, hempty, hvisits]

theorem train_eq_ok {s t : Stats} {before after : Counter} (h : s.train before after = .ok t) :
    t = { s with transitions := t.transitions } ∧
    ∀ x y, t.transition x y = s.transition x y + if x = before ∧ y = after then 1 else 0 := by
  obtain ⟨n, hn, h⟩ := bind_eq_ok.mp h
  obtain ⟨rfl, _⟩ := Count.succ_eq_ok_iff.mp hn
  cases h
  refine ⟨rfl, ?_⟩
  intro x y
  simp only [transition, get_overwrite, Counter.bits_inj]
  by_cases hx : before = x
  · subst hx
    by_cases hy : after = y
    · simp [hy, get_overwrite]
    · have hne : ¬y = after := fun h => hy h.symm
      simp [hy, hne, get_overwrite, Counter.bits_inj]
  · have hne : ¬x = before := fun h => hx h.symm
    simp [hx, hne]

variable {s t : Stats} {n : Nat}

/-- No total exceeds `n`. -/
structure Totals (n : Nat) (s : Stats) : Prop where
  cycles : s.cycles ≤ n
  requests : s.requests ≤ n
  wordsBuffered : s.wordsBuffered ≤ n
  wordsDelivered : s.wordsDelivered ≤ n
  droppedResponses : s.droppedResponses ≤ n
  predictorLookups : s.predictorLookups ≤ n
  predictorHits : s.predictorHits ≤ n
  predictedTaken : s.predictedTaken ≤ n
  resolutions : s.resolutions ≤ n
  mispredictions : s.mispredictions ≤ n
  flushes : s.flushes ≤ n
  stallCycles : s.stallCycles ≤ n
  fullCycles : s.fullCycles ≤ n
  emptyCycles : s.emptyCycles ≤ n
  occupancy : ∀ level, s.occupancy.get level ≤ n

/-- Nor does any count of transitions. -/
structure Within (n : Nat) (s : Stats) : Prop extends Totals n s where
  transitions : ∀ before after, s.transition before after ≤ n

theorem within_zero : Within 0 {} where
  toTotals := by constructor <;> decide
  transitions := by
    intro before after
    cases before <;> cases after <;> decide

theorem Totals.returns (h : s.Totals n) (hn : n + 1 < Count.limit) (r : CycleRecord) : ∃ t, s.observe r = .ok t := by
  have tally : ∀ {m : Nat}, m ≤ n → ∀ b, Count.tally m b = .ok (m + b.toNat) := fun hm b => Count.tally_of_le b hm hn
  simp only [observe, Count.succ_of_le h.cycles hn, tally h.requests, tally h.predictorLookups, tally h.predictorHits,
    tally h.predictedTaken, tally h.resolutions, tally h.mispredictions, tally h.flushes, tally h.wordsBuffered,
    tally h.wordsDelivered, tally h.droppedResponses, tally h.stallCycles, tally h.fullCycles, tally h.emptyCycles,
    Count.succ_of_le (h.occupancy _) hn]
  exact ⟨_, rfl⟩

theorem Totals.observe (h : s.Totals n) {r : CycleRecord} (ht : s.observe r = .ok t) : t.Totals (n + 1) := by
  have more : ∀ {m : Nat}, m ≤ n → ∀ b : Bool, m + b.toNat ≤ n + 1 := fun hm b => Nat.add_le_add hm b.toNat_le
  rw [observe_eq_ok ht]
  exact {
    cycles := Nat.succ_le_succ h.cycles
    requests := more h.requests _
    wordsBuffered := more h.wordsBuffered _
    wordsDelivered := more h.wordsDelivered _
    droppedResponses := more h.droppedResponses _
    predictorLookups := more h.predictorLookups _
    predictorHits := more h.predictorHits _
    predictedTaken := more h.predictedTaken _
    resolutions := more h.resolutions _
    mispredictions := more h.mispredictions _
    flushes := more h.flushes _
    stallCycles := more h.stallCycles _
    fullCycles := more h.fullCycles _
    emptyCycles := more h.emptyCycles _
    occupancy := by
      intro level
      rw [get_overwrite]
      split
      · exact Nat.succ_le_succ (h.occupancy _)
      · exact Nat.le_succ_of_le (h.occupancy level) }

theorem Within.train_returns (h : s.Within n) (hn : n + 1 < Count.limit) (before after : Counter) :
    ∃ t, s.train before after = .ok t :=
  ⟨_, bind_eq_ok.mpr ⟨_, Count.succ_of_le (h.transitions before after) hn, rfl⟩⟩

theorem Within.train (h : s.Within n) {before after : Counter} (ht : s.train before after = .ok t) :
    t.Totals n ∧ ∀ x y, t.transition x y ≤ n + 1 := by
  obtain ⟨hrest, htransition⟩ := train_eq_ok ht
  constructor
  · rw [hrest]
    exact { h.toTotals with }
  · intro x y
    have hxy := h.transitions x y
    rw [htransition]
    split <;> omega

end Stats

/-- Deliveries that agree with the image are counted, and nothing else is. -/
theorem Scoreboard.observe_of_agree {s t : Scoreboard} {r : CycleRecord} (h : s.observe r = .ok t)
    (hr : ∀ x ∈ r.delivered, x.word = s.image.read x.address) :
    t = { s with agreed := s.agreed + r.outputs.valid.toNat } := by
  unfold observe at h
  cases hv : r.outputs.valid with
  | false =>
    simp only [hv, Bool.not_false, if_true] at h
    cases h
    rfl
  | true =>
    have he : s.image.read r.outputs.pc = r.outputs.instruction :=
      (hr ⟨r.outputs.pc, r.outputs.instruction⟩ (by simp [CycleRecord.delivered, hv])).symm
    simp only [hv, Bool.not_true, Bool.false_eq_true, if_false, he, if_true] at h
    obtain ⟨n, hn, h⟩ := bind_eq_ok.mp h
    obtain ⟨rfl, _⟩ := Count.succ_eq_ok_iff.mp hn
    cases h
    rfl

namespace Scoreboard
variable {s t : Scoreboard} {n : Nat}

/-- Neither count exceeds `n`. -/
structure Within (n : Nat) (s : Scoreboard) : Prop where
  agreed : s.agreed ≤ n
  disagreed : s.disagreed ≤ n

theorem Within.returns (h : s.Within n) (hn : n + 1 < Count.limit) (r : CycleRecord) : ∃ t, s.observe r = .ok t := by
  unfold observe
  rw [Count.succ_of_le h.agreed hn, Count.succ_of_le h.disagreed hn]
  dsimp only
  split
  · exact ⟨_, rfl⟩
  · split <;> exact ⟨_, rfl⟩

theorem Within.observe (h : s.Within n) {r : CycleRecord} (ht : s.observe r = .ok t) : t.Within (n + 1) := by
  have hagreed := h.agreed
  have hdisagreed := h.disagreed
  unfold Scoreboard.observe at ht
  dsimp only at ht
  split at ht
  · cases ht
    exact ⟨by omega, by omega⟩
  · split at ht
    · obtain ⟨k, hk, ht⟩ := bind_eq_ok.mp ht
      obtain ⟨rfl, _⟩ := Count.succ_eq_ok_iff.mp hk
      cases ht
      exact ⟨Nat.succ_le_succ hagreed, Nat.le_succ_of_le hdisagreed⟩
    · obtain ⟨k, hk, ht⟩ := bind_eq_ok.mp ht
      obtain ⟨rfl, _⟩ := Count.succ_eq_ok_iff.mp hk
      cases ht
      exact ⟨Nat.le_succ_of_le hagreed, Nat.succ_le_succ hdisagreed⟩

end Scoreboard

end FetchStage
