import FetchStage.Proofs.Stats.Balance
import Mathlib.Data.List.SplitBy

/-! # Backpressure

The request is registered, so a full buffer takes it away one cycle late. Of the cycles that a buffer stays full, the first may
still be answered, and the answer is lost; the others ask for nothing. What follows is told by neighbouring cycles alone: the
request of a cycle goes by the signals of the one before.
-/
namespace FetchStage

namespace CycleRecord
variable {q r : CycleRecord}

/-- The cycle flushes, or it starts with room in the buffer and is not stalled. -/
def rearms (r : CycleRecord) : Bool := r.outputs.flush || !r.outputs.bufferFull && !r.inputs.stall

/-- How the cycle after `q` starts. -/
structure Precedes (q r : CycleRecord) : Prop where
  request : r.outputs.request.readEnable =
    (!q.inputs.reset && (q.rearms || !q.outputs.bufferFull && q.outputs.request.readEnable))
  cleared : q.clears → r.outputs.bufferFull = false

theorem rearms_of_full (hq : q.outputs.bufferFull) : q.rearms = q.outputs.flush := by
  simp [rearms, hq]

theorem Precedes.asserted (h : q.Precedes r) (hreset : q.inputs.reset = false) (hq : q.rearms) :
    r.outputs.request.readEnable := by
  rw [h.request, hreset, hq]
  rfl

/-- A request that is down, or that a full buffer takes down, stays down. -/
theorem Precedes.withheld (h : q.Precedes r) (hq : q.rearms = false)
    (hdown : q.outputs.bufferFull ∨ q.outputs.request.readEnable = false) : r.outputs.request.readEnable = false := by
  rw [h.request, hq]
  rcases hdown with hfull | hlow
  · simp [hfull]
  · simp [hlow]

theorem Precedes.withheld_of_full (h : q.Precedes r) (hq : q.outputs.bufferFull) (hr : r.outputs.bufferFull) :
    r.outputs.request.readEnable = false := by
  apply h.withheld _ (Or.inl hq)
  rw [rearms_of_full hq]
  by_contra hflush
  rw [Bool.not_eq_false] at hflush
  have hclears : q.clears := by simp [clears, hflush]
  rw [h.cleared hclears] at hr
  cases hr

/-- By induction on the cycles between: each of them leaves the request down for the next. -/
theorem withheld_until {held : List CycleRecord} (h : (q :: (held ++ [r])).IsChain Precedes)
    (hrearms : ∀ x ∈ q :: held, x.rearms = false)
    (hdown : q.outputs.bufferFull ∨ q.outputs.request.readEnable = false) : r.outputs.request.readEnable = false := by
  have hq := hrearms q List.mem_cons_self
  induction held generalizing q with
  | nil => exact (List.isChain_cons_cons.mp h).1.withheld hq hdown
  | cons x held ih =>
    obtain ⟨hx, hrest⟩ := List.isChain_cons_cons.mp h
    have hlater : ∀ y ∈ x :: held, y.rearms = false := fun y hy => hrearms y (List.mem_cons_of_mem _ hy)
    exact ih hrest hlater (Or.inr (hx.withheld hq hdown)) (hlater x List.mem_cons_self)

end CycleRecord

section Blocks
variable {rs block : List CycleRecord}

/-- The maximal blocks of cycles that start with a full buffer. -/
def fullBlocks (rs : List CycleRecord) : List (List CycleRecord) :=
  (rs.splitBy fun q r => q.outputs.bufferFull == r.outputs.bufferFull).filter (·.all (·.outputs.bufferFull))

theorem exists_precedes_of_mem_tail (h : block.IsChain CycleRecord.Precedes) {r : CycleRecord} (hr : r ∈ block.tail) :
    ∃ q ∈ block, q.Precedes r := by
  induction block with
  | nil => cases hr
  | cons q rest ih =>
    cases rest with
    | nil => cases hr
    | cons x rest =>
      obtain ⟨hx, hrest⟩ := List.isChain_cons_cons.mp h
      rcases List.mem_cons.mp hr with rfl | hr
      · exact ⟨q, List.mem_cons_self, hx⟩
      · obtain ⟨y, hy, hprecedes⟩ := ih hrest hr
        exact ⟨y, List.mem_cons_of_mem _ hy, hprecedes⟩

/-- The cycles have lost a response only where the buffer was full and a request pending. -/
def DropsWhenFull (rs : List CycleRecord) : Prop :=
  ∀ r ∈ rs, r.outputs.dropped → r.outputs.bufferFull ∧ r.outputs.request.readEnable

theorem quiet_of_mem_tail (h : block.IsChain CycleRecord.Precedes) (hdrops : DropsWhenFull block)
    (hfull : block.all (·.outputs.bufferFull)) {r : CycleRecord} (hr : r ∈ block.tail) :
    r.outputs.dropped = false ∧ r.outputs.request.readEnable = false := by
  rw [List.all_eq_true] at hfull
  have hm := List.mem_of_mem_tail hr
  obtain ⟨q, hq, hprecedes⟩ := exists_precedes_of_mem_tail h hr
  have hlow := hprecedes.withheld_of_full (hfull q hq) (hfull r hm)
  refine ⟨?_, hlow⟩
  by_contra hdropped
  rw [Bool.not_eq_false] at hdropped
  rw [(hdrops r hm hdropped).2] at hlow
  cases hlow

theorem countP_dropped_of_full (h : block.IsChain CycleRecord.Precedes) (hdrops : DropsWhenFull block)
    (hfull : block.all (·.outputs.bufferFull)) : block.countP (·.outputs.dropped) ≤ 1 := by
  cases block with
  | nil => exact Nat.zero_le 1
  | cons q rest =>
    have hnone : rest.countP (·.outputs.dropped) = 0 := by
      rw [List.countP_eq_zero]
      intro r hr
      rw [(quiet_of_mem_tail h hdrops hfull hr).1]
      exact Bool.false_ne_true
    rw [List.countP_cons, hnone]
    split <;> omega

theorem infix_of_mem_splitBy (hblock : block ∈ rs.splitBy fun q r => q.outputs.bufferFull == r.outputs.bufferFull) :
    block <:+: rs := by
  rw [← List.flatten_splitBy (fun q r => q.outputs.bufferFull == r.outputs.bufferFull) rs]
  exact List.infix_of_mem_flatten hblock

/-- A block is full throughout or nowhere. -/
theorem full_eq_of_mem_splitBy (hblock : block ∈ rs.splitBy fun q r => q.outputs.bufferFull == r.outputs.bufferFull)
    {q r : CycleRecord} (hq : q ∈ block) (hr : r ∈ block) : q.outputs.bufferFull = r.outputs.bufferFull := by
  have hsame : (block.map (·.outputs.bufferFull)).IsChain (· = ·) := by
    rw [List.isChain_map]
    exact (List.isChain_of_mem_splitBy hblock).imp fun _ _ h => beq_iff_eq.mp h
  by_contra hne
  exact hne (hsame.pairwise.forall (List.mem_map_of_mem hq) (List.mem_map_of_mem hr) hne)

theorem countP_dropped_of_mem_splitBy (h : rs.IsChain CycleRecord.Precedes) (hdrops : DropsWhenFull rs)
    (hblock : block ∈ rs.splitBy fun q r => q.outputs.bufferFull == r.outputs.bufferFull) :
    block.countP (·.outputs.dropped) ≤ (block.all (·.outputs.bufferFull)).toNat := by
  have hpart := infix_of_mem_splitBy hblock
  have hchain : block.IsChain CycleRecord.Precedes := List.IsChain.infix h hpart
  have hdrops : DropsWhenFull block := fun r hr => hdrops r (hpart.subset hr)
  cases hfull : block.all (·.outputs.bufferFull) with
  | true => exact countP_dropped_of_full hchain hdrops hfull
  | false =>
    obtain ⟨q, hq, hroom⟩ := List.all_eq_false.mp hfull
    apply Nat.le_of_eq
    rw [Bool.toNat_false, List.countP_eq_zero]
    intro r hr hdropped
    rw [full_eq_of_mem_splitBy hblock hq hr] at hroom
    exact hroom (hdrops r hr hdropped).1

theorem countP_flatten_le {p : CycleRecord → Bool} {test : List CycleRecord → Bool} {blocks : List (List CycleRecord)}
    (h : ∀ block ∈ blocks, block.countP p ≤ (test block).toNat) : blocks.flatten.countP p ≤ (blocks.filter test).length := by
  induction blocks with
  | nil => exact Nat.le_refl 0
  | cons block blocks ih =>
    have hblock := h block List.mem_cons_self
    have hrest := ih fun b hb => h b (List.mem_cons_of_mem _ hb)
    rw [List.flatten_cons, List.countP_append, List.filter_cons]
    cases htest : test block with
    | true =>
      rw [htest, Bool.toNat_true] at hblock
      simp only [if_true, List.length_cons]
      omega
    | false =>
      rw [htest, Bool.toNat_false] at hblock
      simp only [Bool.false_eq_true, if_false]
      omega

theorem countP_dropped_le (h : rs.IsChain CycleRecord.Precedes) (hdrops : DropsWhenFull rs) :
    rs.countP (·.outputs.dropped) ≤ (fullBlocks rs).length := by
  calc rs.countP (·.outputs.dropped)
      = (rs.splitBy fun q r => q.outputs.bufferFull == r.outputs.bufferFull).flatten.countP (·.outputs.dropped) := by
        rw [List.flatten_splitBy]
    _ ≤ (fullBlocks rs).length := countP_flatten_le fun _ hblock => countP_dropped_of_mem_splitBy h hdrops hblock

end Blocks

theorem Stats.droppedResponses_foldlM {rs : List CycleRecord} {s t : Stats} (h : rs.foldlM Stats.observe s = .ok t) :
    t.droppedResponses = s.droppedResponses + rs.countP (·.outputs.dropped) := by
  induction rs generalizing s with
  | nil =>
    cases h
    rfl
  | cons r rs ih =>
    rw [List.foldlM_cons] at h
    obtain ⟨u, hu, h⟩ := bind_eq_ok.mp h
    rw [ih h, Stats.observe_eq_ok hu, List.countP_cons]
    cases r.outputs.dropped with
    | false => rfl
    | true =>
      simp only [Bool.toNat_true, if_true]
      omega

namespace Engine
variable {e : Engine} (i : Inputs)

theorem request_next : (e.next i).request.readEnable =
    (!i.reset && ((e.record i).rearms || !e.buffer.isFull && e.request.readEnable)) := by
  unfold CycleRecord.rearms record next
  cases hr : i.reset with
  | true => rfl
  | false =>
    simp only [outputs, hr, Bool.false_eq_true, if_false, request, nextState]
    cases e.mispredicts i <;> cases i.stall <;> cases e.buffer.isFull <;> rfl

theorem isFull_next_of_clears (h : (e.record i).clears) (he : e.buffer.Settled) : (e.next i).buffer.isFull = false := by
  have hempty : (e.next i).buffer.count = 0 := by
    rw [← Buffer.length_toList, toList_next_of_clears i h he, List.length_nil]
  rw [Buffer.isFull, hempty]
  rfl

theorem record_precedes (he : e.buffer.Settled) (j : Inputs) (n : Nat) :
    (e.record i).Precedes (({ e.next i with cycle := n } : Engine).record j) where
  request := by
    simp only [record, outputs_request, outputs_bufferFull]
    exact request_next i
  cleared hc := by
    simp only [record, outputs_bufferFull]
    exact isFull_next_of_clears i hc he

theorem dropped_of_settled (he : e.buffer.Settled) (h : (e.outputs i).dropped) :
    e.buffer.isFull ∧ e.request.readEnable := by
  unfold outputs at h
  cases hr : i.reset with
  | true => simp [hr] at h
  | false =>
    simp only [hr, Bool.false_eq_true, if_false, Bool.and_eq_true, Bool.not_eq_true', receives, Buffer.acceptsWrite,
      he.staged_eq] at h
    obtain ⟨⟨hready, hpending⟩, hrefused⟩ := h
    simpa [hready, hpending, request] using hrefused

variable {rs : List CycleRecord}

theorem Reached.dropsWhenFull (h : Reached rs e) : DropsWhenFull rs := by
  intro r hr hdropped
  obtain ⟨past, future, hrs⟩ := List.append_of_mem hr
  obtain ⟨t, i, ht, rfl⟩ := h.at_cycle hrs
  simp only [record, outputs_bufferFull, outputs_request]
  exact dropped_of_settled i ht.settled hdropped

theorem Reached.precedes (h : Reached rs e) {r : CycleRecord} (hr : r ∈ rs.getLast?) : r.Precedes (e.record i) := by
  cases h with
  | initial => cases hr
  | step j ht =>
    rw [List.getLast?_concat] at hr
    cases hr
    exact record_precedes j ht.settled i _

theorem Reached.isChain (h : Reached rs e) : rs.IsChain CycleRecord.Precedes := by
  induction h with
  | initial => exact List.isChain_nil
  | step i ht ih =>
    rw [List.isChain_append]
    refine ⟨ih, List.isChain_singleton _, ?_⟩
    intro q hq r hr
    cases hr
    exact ht.precedes i hq

/-- A response is lost only where the buffer is full and a request pending, which is so in the first cycle of a block at most. From
the first cycle on, the request is down until a cycle that starts with room and is not stalled, or that flushes; unless this one is
a reset, the next one asserts it. So there are no more losses than blocks. -/
theorem run_backpressure (is : List Inputs) (h : is.length < Count.limit) :
    ∃ e os s, initial.run is = .ok (e, os) ∧ os.length = is.length ∧
      (records 0 is os).foldlM Stats.observe {} = .ok s ∧
      (∀ r ∈ records 0 is os, r.outputs.dropped → r.outputs.bufferFull ∧ r.outputs.request.readEnable) ∧
      (∀ block ∈ fullBlocks (records 0 is os), ∀ r ∈ block.tail,
        r.outputs.dropped = false ∧ r.outputs.request.readEnable = false) ∧
      (∀ past q held r future, records 0 is os = past ++ q :: (held ++ r :: future) → q.outputs.bufferFull →
        (∀ x ∈ q :: held, x.rearms = false) → r.outputs.request.readEnable = false) ∧
      (∀ past q r future, records 0 is os = past ++ q :: r :: future → q.inputs.reset = false → q.rearms →
        r.outputs.request.readEnable) ∧
      s.droppedResponses ≤ (fullBlocks (records 0 is os)).length := by
  obtain ⟨e, os, hrun, hlen, hr⟩ := Reached.initial.run is (by simpa only [initial, Nat.zero_add] using h)
  simp only [List.nil_append, initial] at hr
  obtain ⟨s, hs, _⟩ := hr.balanced (by rw [length_records 0 hlen]; exact h)
  have hchain := hr.isChain
  have hdrops := hr.dropsWhenFull
  refine ⟨e, os, s, hrun, hlen, hs, hdrops, ?_, ?_, ?_, ?_⟩
  · intro block hblock r hm
    obtain ⟨hblock, hfull⟩ := List.mem_filter.mp hblock
    have hpart := infix_of_mem_splitBy hblock
    have hblock : block.IsChain CycleRecord.Precedes := List.IsChain.infix hchain hpart
    exact quiet_of_mem_tail hblock (fun q hq => hdrops q (hpart.subset hq)) hfull hm
  · intro past q held r future hrs hfull hheld
    have hpart : q :: (held ++ [r]) <:+: records 0 is os := ⟨past, future, by simp [hrs]⟩
    have hwait : (q :: (held ++ [r])).IsChain CycleRecord.Precedes := List.IsChain.infix hchain hpart
    exact CycleRecord.withheld_until hwait hheld (Or.inl hfull)
  · intro past q r future hrs hreset hrearms
    have hpart : [q, r] <:+: records 0 is os := ⟨past, future, by simp [hrs]⟩
    have hpair : [q, r].IsChain CycleRecord.Precedes := List.IsChain.infix hchain hpart
    exact (List.isChain_cons_cons.mp hpair).1.asserted hreset hrearms
  · rw [Stats.droppedResponses_foldlM hs, Nat.zero_add]
    exact countP_dropped_le hchain hdrops

/-- The buffer fills, and fills again after one word is taken and a stall has passed. A flush ends the second block. Two responses
are lost, one for each block. -/
theorem run_backpressure_twice :
    ∃ (answered : Inputs) (is : List Inputs), answered = { memory := ⟨0x13, true⟩ } ∧
      is = List.replicate 11 answered ++ [{ answered with consume := true }, { stall := true }] ++
        List.replicate 3 answered ++ [{ resolution := ⟨true, true, 0x40, 0x100⟩ }, answered] ∧
      is.length < Count.limit ∧
      ∃ e os s, initial.run is = .ok (e, os) ∧ (records 0 is os).foldlM Stats.observe {} = .ok s ∧
        (fullBlocks (records 0 is os)).map (·.map (·.cycle)) = [[9, 10, 11], [15, 16]] ∧
        ((records 0 is os).filter (·.outputs.request.readEnable)).map (·.cycle) = [1, 2, 3, 4, 5, 6, 7, 8, 9, 14, 15, 17] ∧
        (∀ block ∈ fullBlocks (records 0 is os), ∀ r ∈ block.tail,
          r.outputs.dropped = false ∧ r.outputs.request.readEnable = false) ∧
        s.droppedResponses = 2 ∧ s.droppedResponses ≤ (fullBlocks (records 0 is os)).length := by
  let answered : Inputs := { memory := ⟨0x13, true⟩ }
  let is : List Inputs := List.replicate 11 answered ++ [{ answered with consume := true }, { stall := true }] ++
    List.replicate 3 answered ++ [{ resolution := ⟨true, true, 0x40, 0x100⟩ }, answered]
  refine ⟨answered, is, rfl, rfl, by decide, ?_⟩
  obtain ⟨e, os, s, hrun, _, hs, _, hquiet, _, _, hle⟩ := run_backpressure is (by decide)
  have htest : (initial.run is).toOption.any fun x =>
      ((records 0 is x.2).foldlM Stats.observe {}).toOption.any fun s =>
        (fullBlocks (records 0 is x.2)).map (·.map (·.cycle)) == [[9, 10, 11], [15, 16]] &&
          ((records 0 is x.2).filter (·.outputs.request.readEnable)).map (·.cycle) ==
            [1, 2, 3, 4, 5, 6, 7, 8, 9, 14, 15, 17] && s.droppedResponses == 2 := by
    decide +kernel
  simp only [hrun, hs, Except.toOption, Option.any_some, Bool.and_eq_true, beq_iff_eq] at htest
  exact ⟨e, os, s, hrun, hs, htest.1.1, htest.1.2, hquiet, htest.2, hle⟩

end Engine

end FetchStage
