import FetchStage.Proofs.Engine.Cycle
import Mathlib.Data.List.Induction

/-! # Epochs of a run

A run is cut after every cycle that flushes or resets. Within an epoch the deliveries are the first of the writes, in
the same order, each after the cycle of its write, and the buffer holds the rest. A word is therefore never delivered
across the end of an epoch, although the last cycle of an epoch may deliver, write and flush at once.
-/
namespace FetchStage

def deliveries (rs : List CycleRecord) : List BufferEntry := rs.flatMap (·.delivered)

def writes (rs : List CycleRecord) : List BufferEntry := rs.flatMap (·.written)

@[simp] theorem deliveries_concat (rs : List CycleRecord) (r : CycleRecord) :
    deliveries (rs ++ [r]) = deliveries rs ++ r.delivered := by
  simp [deliveries]

@[simp] theorem writes_concat (rs : List CycleRecord) (r : CycleRecord) :
    writes (rs ++ [r]) = writes rs ++ r.written := by
  simp [writes]

/-- A run cut after its clearing cycles; `current` has the cycles since the last of them. -/
structure Epochs where
  closed : List (List CycleRecord) := []
  current : List CycleRecord := []

namespace Epochs

def add (c : Epochs) (r : CycleRecord) : Epochs :=
  if r.clears then ⟨c.closed ++ [c.current ++ [r]], []⟩ else ⟨c.closed, c.current ++ [r]⟩

def cut (rs : List CycleRecord) : Epochs := rs.foldl add {}

theorem cut_concat (rs : List CycleRecord) (r : CycleRecord) : cut (rs ++ [r]) = (cut rs).add r := by
  simp [cut]

/-- The epochs make up the run, and the clearing cycles are the last ones of the closed epochs. -/
structure Cuts (c : Epochs) (rs : List CycleRecord) : Prop where
  whole : c.closed.flatten ++ c.current = rs
  ends : ∀ epoch ∈ c.closed, ∃ init last, epoch = init ++ [last] ∧ last.clears ∧ ∀ r ∈ init, r.clears = false
  unended : ∀ r ∈ c.current, r.clears = false

theorem Cuts.add {c : Epochs} {rs : List CycleRecord} (h : c.Cuts rs) (r : CycleRecord) :
    (c.add r).Cuts (rs ++ [r]) := by
  unfold Epochs.add
  split
  · rename_i hr
    refine ⟨?_, ?_, by simp⟩
    · rw [← h.whole]
      simp
    · intro epoch hm
      rcases List.mem_append.mp hm with hm | hm
      · exact h.ends epoch hm
      · exact ⟨c.current, r, List.mem_singleton.mp hm, hr, h.unended⟩
  · rename_i hr
    refine ⟨?_, h.ends, ?_⟩
    · rw [← h.whole, List.append_assoc]
    · intro x hx
      rcases List.mem_append.mp hx with hx | hx
      · exact h.unended x hx
      · rw [List.mem_singleton.mp hx]
        simpa using hr

theorem cuts_cut (rs : List CycleRecord) : (cut rs).Cuts rs := by
  induction rs using List.reverseRecOn with
  | nil => exact ⟨rfl, by simp [cut], by simp [cut]⟩
  | append_singleton rs r ih =>
    rw [cut_concat]
    exact ih.add r

end Epochs

/-- The deliveries of some cycles come from their own writes, in order, and each after the cycle of its write. -/
structure Fifo (rs : List CycleRecord) : Prop where
  ordered : deliveries rs <+: writes rs
  after : ∀ n < rs.length, deliveries (rs.take (n + 1)) <+: writes (rs.take n)

theorem fifo_nil : Fifo [] := ⟨List.prefix_rfl, by simp⟩

theorem Fifo.concat {rs : List CycleRecord} {r : CycleRecord} {held : List BufferEntry} (h : Fifo rs)
    (hw : writes rs = deliveries rs ++ held) (hd : r.delivered <+: held) : Fifo (rs ++ [r]) := by
  have hp : deliveries (rs ++ [r]) <+: writes rs := by
    rw [deliveries_concat, hw]
    exact (List.prefix_append_right_inj _).mpr hd
  refine ⟨?_, ?_⟩
  · rw [writes_concat]
    exact hp.trans (List.prefix_append _ _)
  · intro n hn
    rw [List.length_append, List.length_singleton] at hn
    by_cases hlt : n < rs.length
    · rw [List.take_append_of_le_length hlt, List.take_append_of_le_length (Nat.le_of_lt hlt)]
      exact h.after n hlt
    · have hlen : n = rs.length := by omega
      rw [hlen, List.take_left, List.take_of_length_le (by simp)]
      exact hp

/-- The entry was stored by one of these cycles, and none from there on cleared the buffer. -/
def Source (rs : List CycleRecord) (x : BufferEntry) : Prop :=
  ∃ before w after, rs = before ++ w :: after ∧ w.written = [x] ∧ ∀ c ∈ w :: after, c.clears = false

theorem Source.concat {rs : List CycleRecord} {x : BufferEntry} (h : Source rs x) {r : CycleRecord}
    (hr : r.clears = false) : Source (rs ++ [r]) x := by
  obtain ⟨before, w, after, rfl, hw, hc⟩ := h
  refine ⟨before, w, after ++ [r], by simp, hw, ?_⟩
  intro c hm
  rw [← List.cons_append, List.mem_append, List.mem_singleton] at hm
  rcases hm with hm | rfl
  · exact hc c hm
  · exact hr

theorem source_written {rs : List CycleRecord} {r : CycleRecord} (hr : r.clears = false) {x : BufferEntry}
    (hx : x ∈ r.written) : Source (rs ++ [r]) x := by
  refine ⟨rs, r, [], rfl, ?_, by simpa using hr⟩
  unfold CycleRecord.written at hx ⊢
  split at hx
  · rename_i hw
    rw [if_pos hw, List.mem_singleton.mp hx]
  · simp at hx

namespace Engine
variable {rs : List CycleRecord} {e : Engine}

structure Delivering (rs : List CycleRecord) (e : Engine) : Prop where
  closed : ∀ epoch ∈ (Epochs.cut rs).closed, Fifo epoch
  current : Fifo (Epochs.cut rs).current
  held : writes (Epochs.cut rs).current = deliveries (Epochs.cut rs).current ++ e.buffer.toList
  source : ∀ x ∈ e.buffer.toList, Source rs x

theorem delivering_initial : Delivering [] initial := ⟨by simp [Epochs.cut], fifo_nil, rfl, by simp [initial]⟩

/-- A clearing cycle ends its epoch, whatever it delivers and stores. -/
theorem Delivering.next_of_clears (h : Delivering rs e) (he : e.buffer.Settled) {i : Inputs}
    (hc : (e.record i).clears) : Delivering (rs ++ [e.record i]) (e.next i) := by
  have hcut : Epochs.cut (rs ++ [e.record i]) =
      ⟨(Epochs.cut rs).closed ++ [(Epochs.cut rs).current ++ [e.record i]], []⟩ := by
    rw [Epochs.cut_concat, Epochs.add, if_pos hc]
  have hlist := toList_next_of_clears i hc he
  refine ⟨?_, ?_, ?_, ?_⟩
  · rw [hcut]
    intro epoch hm
    rcases List.mem_append.mp hm with hm | hm
    · exact h.closed epoch hm
    · rw [List.mem_singleton.mp hm]
      exact h.current.concat h.held (record_delivered_of_held i)
  · rw [hcut]
    exact fifo_nil
  · rw [hcut, hlist]
    rfl
  · rw [hlist]
    simp

theorem Delivering.next_of_not_clears (h : Delivering rs e) (he : e.buffer.Settled) {i : Inputs}
    (hc : (e.record i).clears = false) : Delivering (rs ++ [e.record i]) (e.next i) := by
  have hcut : Epochs.cut (rs ++ [e.record i]) =
      ⟨(Epochs.cut rs).closed, (Epochs.cut rs).current ++ [e.record i]⟩ := by
    rw [Epochs.cut_concat, Epochs.add, if_neg (by simp [hc])]
  refine ⟨?_, ?_, ?_, ?_⟩
  · rw [hcut]
    exact h.closed
  · rw [hcut]
    exact h.current.concat h.held (record_delivered_of_held i)
  · rw [hcut, writes_concat, deliveries_concat, h.held, List.append_assoc,
      toList_append_written i hc he, List.append_assoc]
  · intro x hx
    rcases mem_toList_next i he hx with hm | ⟨_, hm⟩
    · exact (h.source x hm).concat hc
    · exact source_written hc hm

theorem Reached.delivering (h : Reached rs e) : Delivering rs e := by
  induction h with
  | initial => exact delivering_initial
  | @step rs e i hr ih =>
    have hn : Delivering (rs ++ [e.record i]) (e.next i) := by
      cases hc : (e.record i).clears with
      | true => exact ih.next_of_clears hr.settled hc
      | false => exact ih.next_of_not_clears hr.settled hc
    exact ⟨hn.closed, hn.current, hn.held, hn.source⟩

/-- Nothing is delivered that was stored before the last clearing cycle, or in the cycle of the delivery. -/
theorem Reached.delivered_source (h : Reached rs e) {past future : List CycleRecord} {r : CycleRecord}
    (hrs : rs = past ++ r :: future) {x : BufferEntry} (hx : x ∈ r.delivered) : Source past x := by
  obtain ⟨t, i, ht, rfl⟩ := h.at_cycle hrs
  exact ht.delivering.source x ((record_delivered_of_held i).subset hx)

/-- Nothing is lost, repeated, reordered or delivered from an earlier epoch. -/
theorem run_epochs_fifo (is : List Inputs) (h : is.length < Count.limit) :
    ∃ e os, initial.run is = .ok (e, os) ∧ os.length = is.length ∧
      (Epochs.cut (records 0 is os)).Cuts (records 0 is os) ∧
      Delivering (records 0 is os) e ∧
      ∀ past r future, records 0 is os = past ++ r :: future → ∀ x ∈ r.delivered, Source past x := by
  obtain ⟨e, os, hrun, hlen, hr⟩ := Reached.initial.run is (by simpa only [initial, Nat.zero_add] using h)
  refine ⟨e, os, hrun, hlen, Epochs.cuts_cut _, hr.delivering, ?_⟩
  intro past r future hrs x hx
  exact hr.delivered_source hrs hx

/-- Three cycles, the last of which delivers a word, stores another and flushes. -/
theorem run_epochs_fifo_flush :
    ∃ is : List Inputs,
      is = [{}, { memory := ⟨0x13, true⟩ },
        { memory := ⟨0x93, true⟩, consume := true, resolution := ⟨true, true, 0x40, 0x100⟩ }] ∧
      is.length < Count.limit ∧
      ∃ e os, initial.run is = .ok (e, os) ∧ os.length = is.length ∧
        (Epochs.cut (records 0 is os)).Cuts (records 0 is os) ∧
        Delivering (records 0 is os) e ∧
        ∀ past r future, records 0 is os = past ++ r :: future → ∀ x ∈ r.delivered, Source past x :=
  ⟨_, rfl, by decide, run_epochs_fifo _ (by decide)⟩

end Engine

end FetchStage
