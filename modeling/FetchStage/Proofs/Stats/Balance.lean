import FetchStage.Proofs.Engine.Contract
import FetchStage.Proofs.Engine.Reference
import FetchStage.Proofs.Observers
import Mathlib.Algebra.BigOperators.Group.Finset.Piecewise
import Mathlib.Algebra.GroupWithZero.Nat
import Mathlib.Data.Fintype.BigOperators

/-! # The statistics balance

The totals are gathered from independent signals, but the signals of one cycle depend on one another, and the buffer ties
the cycles together. So the totals of a whole run balance: every stored word has been delivered, is still held, or was
dropped by a flush or a reset.
-/
namespace FetchStage

/-- Entries that a clearing cycle drops. A flush also drops the word stored in its own cycle, but not the one delivered. -/
def CycleRecord.discarded (r : CycleRecord) : Nat :=
  if r.outputs.flush then r.outputs.occupancy - r.outputs.valid.toNat + r.outputs.wrote.toNat
  else if r.inputs.reset then r.outputs.occupancy
  else 0

theorem CycleRecord.discarded_of_not_clears {r : CycleRecord} (h : r.clears = false) : r.discarded = 0 := by
  obtain ⟨hflush, hreset⟩ := Bool.or_eq_false_iff.mp h
  simp [discarded, hflush, hreset]

def discards (rs : List CycleRecord) : Nat := (rs.map (·.discarded)).sum

theorem discards_concat (rs : List CycleRecord) (r : CycleRecord) : discards (rs ++ [r]) = discards rs + r.discarded := by
  simp [discards]

/-- How the signals that are counted depend on one another. -/
structure CycleRecord.Coherent (r : CycleRecord) : Prop where
  redirected : r.outputs.prediction.redirects.toNat ≤ r.outputs.prediction.valid.toNat
  hit : r.outputs.prediction.valid.toNat ≤ r.outputs.request.readEnable.toNat
  flushed : r.outputs.flush = r.outputs.mispredicted
  resolved : r.outputs.mispredicted.toNat ≤ r.inputs.resolution.resolved.toNat
  answered : r.outputs.wrote.toNat + r.outputs.dropped.toNat ≤ r.outputs.request.readEnable.toNat
  delivered : r.outputs.valid.toNat ≤ r.outputs.occupancy

namespace Engine
variable {e : Engine} (i : Inputs)

theorem delivered_le_count : (e.outputs i).valid.toNat ≤ e.buffer.count := by
  have hp := (record_delivered_of_held (e := e) i).length_le
  rwa [CycleRecord.length_delivered, Buffer.length_toList] at hp

theorem prediction_valid_le : e.prediction.valid.toNat ≤ e.request.readEnable.toNat := by
  unfold prediction request
  cases e.state.requestPending with
  | false => exact Nat.le_refl 0
  | true => exact Bool.toNat_le _

theorem mispredicts_le : (e.mispredicts i).toNat ≤ i.resolution.resolved.toNat := by
  unfold mispredicts Prediction.refutedBy
  cases i.resolution.resolved with
  | false => exact Nat.le_refl 0
  | true => exact Bool.toNat_le _

/-- A response is stored or dropped, and there is one only while a request is pending. -/
theorem responses_le (stores : Bool) :
    (e.receives i && stores).toNat + (e.receives i && !(e.receives i && stores)).toNat ≤ e.request.readEnable.toNat := by
  unfold receives request
  cases i.memory.ready with
  | false => exact Nat.zero_le _
  | true =>
    cases e.state.requestPending with
    | false => exact Nat.le_refl 0
    | true => cases stores <;> exact Nat.le_refl 1

theorem record_coherent : (e.record i).Coherent := by
  have hredirects : ∀ p : Prediction, p.redirects.toNat ≤ p.valid.toNat := by
    intro p
    unfold Prediction.redirects
    cases p.valid with
    | false => exact Nat.le_refl 0
    | true => exact Bool.toNat_le _
  have hcount := delivered_le_count (e := e) i
  unfold record
  cases hr : i.reset with
  | true =>
    constructor <;> simp [outputs, hr, Prediction.redirects]
  | false =>
    constructor
    · exact hredirects _
    · simpa [outputs, hr] using prediction_valid_le
    · simp [outputs, hr]
    · simpa [outputs, hr] using mispredicts_le i
    · simpa [outputs, hr] using responses_le i e.buffer.acceptsWrite
    · simpa using hcount

/-- What a cycle starts with and stores, it delivers, keeps or drops. -/
theorem count_next (he : e.buffer.Settled) :
    e.buffer.count + (e.outputs i).wrote.toNat =
      (e.outputs i).valid.toNat + (e.next i).buffer.count + (e.record i).discarded := by
  cases hc : (e.record i).clears with
  | false =>
    have hbalance := (inRange_of_settled he i).balance hc
    rw [CycleRecord.discarded_of_not_clears hc]
    omega
  | true =>
    have hempty : (e.next i).buffer.count = 0 := by
      rw [← Buffer.length_toList, toList_next_of_clears i hc he, List.length_nil]
    have hdelivered := delivered_le_count (e := e) i
    rw [hempty]
    cases hr : i.reset with
    | true => simp [CycleRecord.discarded, record, outputs, hr]
    | false =>
      have hflush : (e.outputs i).flush := by
        rw [record_clears, hr, Bool.false_or] at hc
        simp [outputs, hr, hc]
      simp only [CycleRecord.discarded, record, hflush, if_true, outputs_occupancy]
      omega

end Engine

/-- A step of the histogram adds one to its sum. -/
theorem sum_overwrite_succ {n : Nat} (v : Vector Nat n) (j : Fin n) :
    ∑ k, (overwrite v j (v.get j + 1)).get k = ∑ k, v.get k + 1 := by
  have hcell : ∀ k, (overwrite v j (v.get j + 1)).get k = v.get k + if j = k then 1 else 0 := by
    intro k
    rw [get_overwrite]
    by_cases hk : j = k
    · rw [if_pos hk, if_pos hk, hk]
    · rw [if_neg hk, if_neg hk, Nat.add_zero]
  simp only [hcell, Finset.sum_add_distrib, Finset.sum_ite_eq, Finset.mem_univ, if_true]

namespace Stats
variable {s t : Stats} {held : Nat} {rs : List CycleRecord}

/-- The balances between the totals after the cycles `rs`, with `held` entries in the buffer. -/
structure Balanced (held : Nat) (rs : List CycleRecord) (s : Stats) : Prop where
  cycles : s.cycles = rs.length
  histogram : ∑ level, s.occupancy.get level = s.cycles
  full : s.fullCycles = s.occupancy.get 8
  empty : s.emptyCycles = s.occupancy.get 0
  lookups : s.predictorLookups = s.requests
  taken : s.predictedTaken ≤ s.predictorHits
  hits : s.predictorHits ≤ s.predictorLookups
  flushes : s.flushes = s.mispredictions
  mispredictions : s.mispredictions ≤ s.resolutions
  responses : s.wordsBuffered + s.droppedResponses ≤ s.requests
  words : s.wordsBuffered = s.wordsDelivered + held + discards rs

theorem balanced_nil : Balanced 0 [] {} where
  cycles := rfl
  histogram := by decide
  full := rfl
  empty := rfl
  lookups := rfl
  taken := Nat.le_refl 0
  hits := Nat.le_refl 0
  flushes := rfl
  mispredictions := Nat.le_refl 0
  responses := Nat.le_refl 0
  words := rfl

theorem level_eq_iff {occupancy : Nat} {k : Fin levelCount} (h : occupancy ≤ bufferDepth) :
    level occupancy = k ↔ occupancy = k.val := by
  have hmin : min occupancy bufferDepth = occupancy := Nat.min_eq_left h
  rw [Fin.ext_iff]
  exact ⟨fun hk => hmin.symm.trans hk, fun hk => hmin.trans hk⟩

/-- A flag that marks one level keeps pace with that level's cell. -/
theorem cell_observe {n occupancy : Nat} {flag : Bool} {k : Fin levelCount} (v : Vector Nat levelCount)
    (hn : n = v.get k) (hle : occupancy ≤ bufferDepth) (hflag : flag = (occupancy == k.val)) :
    n + flag.toNat = (overwrite v (level occupancy) (v.get (level occupancy) + 1)).get k := by
  rw [get_overwrite, hn, hflag]
  by_cases hk : level occupancy = k
  · have hocc := (level_eq_iff hle).mp hk
    rw [if_pos hk, hk, beq_iff_eq.mpr hocc]
    rfl
  · have hocc : ¬occupancy = k.val := fun h => hk ((level_eq_iff hle).mpr h)
    rw [if_neg hk, beq_eq_false_iff_ne.mpr hocc]
    rfl

theorem Balanced.observe {e : Engine} {i : Inputs} (h : Balanced e.buffer.count rs s) (he : e.buffer.Settled)
    (ht : s.observe (e.record i) = .ok t) : Balanced (e.next i).buffer.count (rs ++ [e.record i]) t := by
  have hc := Engine.record_coherent (e := e) i
  have hcount := Engine.count_next i he
  have hoccupancy : (e.record i).outputs.occupancy = e.buffer.count := Engine.outputs_occupancy i
  have hle : (e.record i).outputs.occupancy ≤ bufferDepth := hoccupancy ▸ he.count_le
  have hfull : (e.record i).outputs.bufferFull = ((e.record i).outputs.occupancy == (8 : Fin levelCount).val) := by
    rw [hoccupancy]
    exact Engine.outputs_bufferFull i
  have hempty : (e.record i).outputs.bufferEmpty = ((e.record i).outputs.occupancy == (0 : Fin levelCount).val) := by
    rw [hoccupancy]
    exact Engine.outputs_bufferEmpty i
  rw [observe_eq_ok ht]
  constructor
  · simp [h.cycles]
  · simp only [sum_overwrite_succ, h.histogram]
  · exact cell_observe _ h.full hle hfull
  · exact cell_observe _ h.empty hle hempty
  · simp only [h.lookups]
  · exact Nat.add_le_add h.taken hc.redirected
  · exact Nat.add_le_add h.hits hc.hit
  · simp only [h.flushes, hc.flushed]
  · exact Nat.add_le_add h.mispredictions hc.resolved
  · have hresponses := h.responses
    have hanswered := hc.answered
    simp only
    omega
  · have hwords := h.words
    simp only [discards_concat]
    simp only [Engine.record] at hcount ⊢
    omega

end Stats

namespace Engine
variable {rs : List CycleRecord} {e : Engine}

/-- While the number of cycles is in range, the statistics take in every cycle, and they balance. -/
theorem Reached.balanced (h : Reached rs e) (hn : rs.length < Count.limit) :
    ∃ s, rs.foldlM Stats.observe {} = .ok s ∧ s.Totals rs.length ∧ s.Balanced e.buffer.count rs := by
  induction h with
  | initial => exact ⟨{}, rfl, Stats.within_zero.toTotals, Stats.balanced_nil⟩
  | @step rs e i hr ih =>
    rw [List.length_append, List.length_singleton] at hn
    obtain ⟨s, hs, htotals, hbalanced⟩ := ih (by omega)
    obtain ⟨t, ht⟩ := htotals.returns hn (e.record i)
    refine ⟨t, ?_, ?_, hbalanced.observe hr.settled ht⟩
    · rw [List.foldlM_append]
      exact bind_eq_ok.mpr ⟨s, hs, bind_eq_ok.mpr ⟨t, ht, rfl⟩⟩
    · rw [List.length_append]
      exact htotals.observe ht

theorem Reached.coherent (h : Reached rs e) {r : CycleRecord} (hr : r ∈ rs) : r.Coherent := by
  obtain ⟨past, future, hrs⟩ := List.append_of_mem hr
  obtain ⟨t, i, _, rfl⟩ := h.at_cycle hrs
  exact record_coherent i

theorem length_records (n : Nat) {is : List Inputs} {os : List Outputs} (h : os.length = is.length) :
    (records n is os).length = is.length := by
  induction is generalizing n os with
  | nil => rfl
  | cons i is ih =>
    cases os with
    | nil => cases h
    | cons o os => rw [records, List.length_cons, ih _ (Nat.succ.inj h), List.length_cons]

/-- Over any run the totals balance. What a flush drops is counted exactly, since no cycle delivers more than it holds; and
without a flush or a reset, what has been stored is delivered or held. -/
theorem run_balanced (is : List Inputs) (h : is.length < Count.limit) :
    ∃ e os s, initial.run is = .ok (e, os) ∧ os.length = is.length ∧
      (records 0 is os).foldlM Stats.observe {} = .ok s ∧
      s.Balanced e.buffer.count (records 0 is os) ∧
      (∀ r ∈ records 0 is os, r.outputs.valid.toNat ≤ r.outputs.occupancy) ∧
      ((∀ r ∈ records 0 is os, r.outputs.flush = false ∧ r.inputs.reset = false) →
        s.wordsBuffered = s.wordsDelivered + e.buffer.count) := by
  obtain ⟨e, os, hrun, hlen, hr⟩ := Reached.initial.run is (by simpa only [initial, Nat.zero_add] using h)
  simp only [List.nil_append, initial] at hr
  obtain ⟨s, hs, _, hbalanced⟩ := hr.balanced (by rw [length_records 0 hlen]; exact h)
  refine ⟨e, os, s, hrun, hlen, hs, hbalanced, fun r hm => (hr.coherent hm).delivered, ?_⟩
  intro hclear
  have hnone : discards (records 0 is os) = 0 := by
    apply List.sum_eq_zero
    intro n hn
    obtain ⟨r, hm, rfl⟩ := List.mem_map.mp hn
    obtain ⟨hflush, hreset⟩ := hclear r hm
    exact CycleRecord.discarded_of_not_clears (Bool.or_eq_false_iff.mpr ⟨hflush, hreset⟩)
  rw [hbalanced.words, hnone, Nat.add_zero]

/-- Two words are stored and held. Then a flush meets a delivery and a store, and a reset meets a word held, so three of four
words are dropped. -/
theorem run_balanced_flush :
    ∃ quiet clearing : List Inputs, quiet = [{}, { memory := ⟨0x13, true⟩ }, { memory := ⟨0x93, true⟩ }] ∧
      clearing = [{ memory := ⟨0x113, true⟩, consume := true, resolution := ⟨true, true, 0x40, 0x100⟩ },
        { memory := ⟨0x193, true⟩ }, { reset := true }] ∧
      (quiet ++ clearing).length < Count.limit ∧
      (∃ e os s, initial.run quiet = .ok (e, os) ∧ (records 0 quiet os).foldlM Stats.observe {} = .ok s ∧
        (∀ r ∈ records 0 quiet os, r.outputs.flush = false ∧ r.inputs.reset = false) ∧
        s.wordsBuffered = 2 ∧ s.wordsBuffered = s.wordsDelivered + e.buffer.count) ∧
      ∃ e os s, initial.run (quiet ++ clearing) = .ok (e, os) ∧
        (records 0 (quiet ++ clearing) os).foldlM Stats.observe {} = .ok s ∧
        s.wordsBuffered = 4 ∧ s.wordsDelivered = 1 ∧ discards (records 0 (quiet ++ clearing) os) = 3 ∧
        s.Balanced e.buffer.count (records 0 (quiet ++ clearing) os) := by
  let quiet : List Inputs := [{}, { memory := ⟨0x13, true⟩ }, { memory := ⟨0x93, true⟩ }]
  let clearing : List Inputs := [{ memory := ⟨0x113, true⟩, consume := true, resolution := ⟨true, true, 0x40, 0x100⟩ },
    { memory := ⟨0x193, true⟩ }, { reset := true }]
  refine ⟨quiet, clearing, rfl, rfl, by decide, ?_, ?_⟩
  · obtain ⟨e, os, s, hrun, _, hs, _, _, hkept⟩ := run_balanced quiet (by decide)
    have htest : (initial.run quiet).toOption.any fun x =>
        ((records 0 quiet x.2).foldlM Stats.observe {}).toOption.any fun s =>
          (records 0 quiet x.2).all (fun r => !r.outputs.flush && !r.inputs.reset) && s.wordsBuffered == 2 := by
      decide +kernel
    simp only [hrun, hs, Except.toOption, Option.any_some, Bool.and_eq_true, List.all_eq_true, Bool.not_eq_true',
      beq_iff_eq] at htest
    exact ⟨e, os, s, hrun, hs, htest.1, htest.2, hkept htest.1⟩
  · obtain ⟨e, os, s, hrun, _, hs, hbalanced, _⟩ := run_balanced (quiet ++ clearing) (by decide)
    have htest : (initial.run (quiet ++ clearing)).toOption.any fun x =>
        ((records 0 (quiet ++ clearing) x.2).foldlM Stats.observe {}).toOption.any fun s =>
          s.wordsBuffered == 4 && s.wordsDelivered == 1 && discards (records 0 (quiet ++ clearing) x.2) == 3 := by
      decide +kernel
    simp only [hrun, hs, Except.toOption, Option.any_some, Bool.and_eq_true, beq_iff_eq] at htest
    exact ⟨e, os, s, hrun, hs, htest.1.1, htest.1.2, htest.2, hbalanced⟩

end Engine

end FetchStage
