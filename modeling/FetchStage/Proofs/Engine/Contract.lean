import FetchStage.Contract
import FetchStage.Proofs.Engine.Cycle

/-! # The engine keeps its contract

What the contract says of the buffer holds of every run. What it says of addresses holds as long as every resolved
branch names a word aligned target: the current address alone does not carry this through a run, since a target may
wait in the cache for a lookup long after its branch has resolved.
-/
namespace FetchStage

theorem Address.aligned_iff {a : Address} : a.aligned ↔ a.toNat % 4 = 0 := by
  simp [aligned]

theorem Address.aligned_next {a : Address} (h : a.aligned) : a.next.aligned := by
  rw [aligned_iff] at h ⊢
  have hfour : (4 : Address).toNat = 4 := rfl
  rw [next, BitVec.toNat_add, hfour]
  omega

/-- The branch it resolves, if any, has a word aligned target. -/
def Resolution.Aligned (f : Resolution) : Prop := f.resolved → f.target.aligned

namespace Predictor
variable {p : Predictor}

/-- Every cached target is word aligned, whichever way its counter points. -/
def Aligned (p : Predictor) : Prop := ∀ i c, p.targets.slots.get i = some c → c.target.aligned

theorem aligned_initial : initial.Aligned := by
  intro i c h
  have hnone : initial.targets.slots.get i = none := Vector.getElem_replicate _
  rw [hnone] at h
  cases h

theorem Aligned.update (h : p.Aligned) {f : Resolution} (hf : f.Aligned) :
    (p.update f.resolved f.branchAddress f.taken f.target).Aligned := by
  unfold Predictor.update
  split
  · rename_i hr
    intro i c hc
    simp only [train, TargetCache.update, get_overwrite] at hc
    split at hc
    · cases hc
      exact hf hr
    · exact h i c hc
  · exact h

theorem Aligned.predict (h : p.Aligned) {a : Address} {enabled : Bool} (hv : (p.predict a enabled).valid) :
    (p.predict a enabled).target.aligned := by
  cases enabled with
  | false => cases hv
  | true =>
    cases hc : p.targets.slots.get a.slot with
    | none => simp [Predictor.predict, TargetCache.lookup, hc, Prediction.miss] at hv
    | some c =>
      by_cases ha : c.tag = a
      · simpa [Predictor.predict, TargetCache.lookup, hc, ha] using h a.slot c hc
      · simp [Predictor.predict, TargetCache.lookup, hc, ha, Prediction.miss] at hv

end Predictor

namespace Engine
variable {e : Engine} (i : Inputs)

section Signals

@[simp] theorem outputs_bufferFull : (e.outputs i).bufferFull = e.buffer.isFull := by
  unfold outputs
  cases i.reset <;> rfl

@[simp] theorem outputs_bufferEmpty : (e.outputs i).bufferEmpty = e.buffer.isEmpty := by
  unfold outputs
  cases i.reset <;> rfl

@[simp] theorem outputs_occupancy : (e.outputs i).occupancy = e.buffer.count := by
  unfold outputs
  cases i.reset <;> rfl

theorem outputs_nextState : (e.outputs i).nextState = (e.next i).state := by
  unfold outputs next
  cases i.reset <;> rfl

theorem acceptsWrite_of_wrote (h : (e.outputs i).wrote) : e.buffer.acceptsWrite := by
  unfold outputs at h
  cases hr : i.reset with
  | true => simp [hr] at h
  | false =>
    simp only [hr, Bool.false_eq_true, if_false, Bool.and_eq_true] at h
    exact h.2

end Signals

/-- A settled buffer breaks none of the rules that concern it. -/
theorem breaches_of_settled (he : e.buffer.Settled) {b : Breach} (hb : b ∈ (e.outputs i).breaches) :
    b = .misalignedRequest e.state.currentAddress ∧ ¬e.state.currentAddress.aligned ∨
    b = .misalignedRedirect (e.next i).state.currentAddress ∧ ¬(e.next i).state.currentAddress.aligned := by
  have hexclusive : ¬(e.buffer.isFull ∧ e.buffer.isEmpty) := by
    rintro ⟨hfull, hempty⟩
    rw [Buffer.isFull, beq_iff_eq] at hfull
    rw [Buffer.isEmpty, beq_iff_eq] at hempty
    rw [hempty] at hfull
    cases hfull
  have hroom : ¬bufferDepth < e.buffer.count := by
    have hle := he.count_le
    omega
  have hwrite : ¬((e.outputs i).wrote ∧ e.buffer.isFull) := by
    rintro ⟨hw, hfull⟩
    have ha := acceptsWrite_of_wrote i hw
    simp [Buffer.acceptsWrite, hfull] at ha
  simp only [Outputs.breaches, outputs_request, outputs_bufferFull, outputs_bufferEmpty, outputs_occupancy,
    outputs_nextState, Bool.and_eq_true, hexclusive, hroom, hwrite, if_false, List.append_nil, List.mem_append] at hb
  rcases hb with hb | hb
  · split at hb
    · rename_i hreq
      exact Or.inl ⟨List.mem_singleton.mp hb, by simpa [request] using hreq.2⟩
    · cases hb
  · split at hb
    · rename_i hred
      exact Or.inr ⟨List.mem_singleton.mp hb, by simpa using hred.2⟩
    · cases hb

/-- Every address that the engine holds is word aligned. -/
structure Aligned (e : Engine) : Prop where
  address : e.state.currentAddress.aligned
  predictor : e.predictor.Aligned

theorem aligned_initial : initial.Aligned := ⟨by decide, Predictor.aligned_initial⟩

variable {i}

theorem Aligned.prediction (h : e.Aligned) (hp : e.prediction.redirects) : e.prediction.target.aligned := by
  simp only [Prediction.redirects, Bool.and_eq_true] at hp
  exact h.predictor.predict hp.1

/-- A redirect goes where a resolved branch says. -/
theorem aligned_of_mispredicts (hi : i.resolution.Aligned) (hm : e.mispredicts i) : i.resolution.target.aligned := by
  simp only [mispredicts, Prediction.refutedBy, Bool.and_eq_true] at hm
  exact hi hm.1

theorem Aligned.nextAddress (h : e.Aligned) (hi : i.resolution.Aligned) : (e.nextAddress i).aligned := by
  unfold Engine.nextAddress
  split
  · rename_i hm
    exact aligned_of_mispredicts hi hm
  · split
    · rename_i hp
      exact h.prediction hp
    · exact Address.aligned_next h.address

theorem Aligned.nextState (h : e.Aligned) (hi : i.resolution.Aligned) :
    (e.nextState i).currentAddress.aligned := by
  unfold Engine.nextState
  split
  · rename_i hm
    exact aligned_of_mispredicts hi hm
  · split
    · exact h.nextAddress hi
    · split <;> exact h.address

theorem Aligned.next (h : e.Aligned) (hi : i.resolution.Aligned) : (e.next i).Aligned := by
  unfold Engine.next
  split
  · exact ⟨aligned_initial.address, aligned_initial.predictor⟩
  · exact ⟨h.nextState hi, h.predictor.update hi⟩

theorem Aligned.breaches_eq_nil (h : e.Aligned) (he : e.buffer.Settled) (hi : i.resolution.Aligned) :
    (e.outputs i).breaches = [] := by
  apply List.eq_nil_iff_forall_not_mem.mpr
  intro b hb
  rcases breaches_of_settled i he hb with ⟨_, ha⟩ | ⟨_, ha⟩
  · exact ha h.address
  · exact ha (h.next hi).address

theorem Reached.aligned {rs : List CycleRecord} (h : Reached rs e) (hr : ∀ r ∈ rs, r.inputs.resolution.Aligned) :
    e.Aligned := by
  induction h with
  | initial => exact aligned_initial
  | @step rs e i _ ih =>
    have ha := ih fun r hm => hr r (List.mem_append_left _ hm)
    have hn := ha.next (hr (e.record i) (by simp))
    exact ⟨hn.address, hn.predictor⟩

theorem inputs_mem_of_mem_records {n : Nat} {is : List Inputs} {os : List Outputs} {r : CycleRecord}
    (h : r ∈ records n is os) : r.inputs ∈ is := by
  induction is generalizing n os with
  | nil => cases h
  | cons i is ih =>
    cases os with
    | nil => cases h
    | cons o os =>
      rcases List.mem_cons.mp h with rfl | h
      · exact List.mem_cons_self
      · exact List.mem_cons_of_mem _ (ih h)

/-- No run breaks a rule about the buffer. If each resolved branch has a word aligned target, whether it is taken or
not, no run breaks any rule, and the engine holds a multiple of four after every cycle. -/
theorem run_contract (is : List Inputs) (h : is.length < Count.limit) :
    ∃ e os, initial.run is = .ok (e, os) ∧ os.length = is.length ∧
      (∀ r ∈ records 0 is os, ∀ v ∈ r.violations,
        v.breach ≠ .fullAndEmpty ∧ (∀ n, v.breach ≠ .occupancyOutOfRange n) ∧ v.breach ≠ .writeWhileFull) ∧
      ((∀ i ∈ is, i.resolution.resolved → i.resolution.target.toNat % 4 = 0) →
        ∀ r ∈ records 0 is os, r.violations = [] ∧ r.outputs.nextState.currentAddress.toNat % 4 = 0) := by
  obtain ⟨e, os, hrun, hlen, hr⟩ := Reached.initial.run is (by simpa only [initial, Nat.zero_add] using h)
  simp only [List.nil_append, initial] at hr
  refine ⟨e, os, hrun, hlen, ?_, ?_⟩
  · intro r hm v hv
    obtain ⟨past, future, hrs⟩ := List.append_of_mem hm
    obtain ⟨t, i, ht, rfl⟩ := hr.at_cycle hrs
    obtain ⟨b, hb, rfl⟩ := List.mem_map.mp hv
    rcases breaches_of_settled i ht.settled hb with ⟨rfl, _⟩ | ⟨rfl, _⟩ <;> simp
  · intro hi r hm
    obtain ⟨past, future, hrs⟩ := List.append_of_mem hm
    obtain ⟨t, i, ht, rfl⟩ := hr.at_cycle hrs
    have hfacts : ∀ q ∈ past ++ t.record i :: future, q.inputs.resolution.Aligned := by
      intro q hq hres
      rw [← hrs] at hq
      exact Address.aligned_iff.mpr (hi _ (inputs_mem_of_mem_records hq) hres)
    have ha := ht.aligned fun q hq => hfacts q (List.mem_append_left _ hq)
    have hnow : i.resolution.Aligned := hfacts (t.record i) (by simp)
    constructor
    · simp [CycleRecord.violations, record, ha.breaches_eq_nil ht.settled hnow]
    · simp only [record, outputs_nextState]
      exact Address.aligned_iff.mp (ha.next hnow).address

/-- A branch to the last word of the address space, the wrap past it, and a stalled cycle that stores the target of a
branch that is not taken. -/
theorem run_contract_wrap :
    ∃ is : List Inputs,
      is = [{ resolution := ⟨true, true, 0x40, 0xFFFFFFFC⟩ }, { memory := ⟨0x13, true⟩ },
        { consume := true, stall := true, resolution := ⟨true, false, 0x40, 0x80⟩ }] ∧
      is.length < Count.limit ∧ (∀ i ∈ is, i.resolution.resolved → i.resolution.target.toNat % 4 = 0) ∧
      ∃ e os, initial.run is = .ok (e, os) ∧ os.length = is.length ∧
        (∀ r ∈ records 0 is os, ∀ v ∈ r.violations,
          v.breach ≠ .fullAndEmpty ∧ (∀ n, v.breach ≠ .occupancyOutOfRange n) ∧ v.breach ≠ .writeWhileFull) ∧
        ∀ r ∈ records 0 is os, r.violations = [] ∧ r.outputs.nextState.currentAddress.toNat % 4 = 0 := by
  refine ⟨_, rfl, by decide, by decide, ?_⟩
  have hrun := run_contract [{ resolution := ⟨true, true, 0x40, 0xFFFFFFFC⟩ }, { memory := ⟨0x13, true⟩ },
    { consume := true, stall := true, resolution := ⟨true, false, 0x40, 0x80⟩ }] (by decide)
  obtain ⟨e, os, hrun, hlen, hbuffer, haligned⟩ := hrun
  exact ⟨e, os, hrun, hlen, hbuffer, haligned (by decide)⟩

end Engine

end FetchStage
