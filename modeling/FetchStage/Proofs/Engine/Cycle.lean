import FetchStage.Engine
import FetchStage.Proofs.Buffer.Ring

/-! # One cycle of the engine, and runs

A cycle stages at most one write, one read and a flush on a settled buffer, and the outputs report which. So the
entries before and after a cycle are related through its record alone: what was held, followed by what was written, is
what is delivered, followed by what is held. A run collects the records of its cycles.
-/
namespace FetchStage

namespace CycleRecord

/-- The word handed downstream, with its address. -/
def delivered (r : CycleRecord) : List BufferEntry :=
  if r.outputs.valid then [⟨r.outputs.pc, r.outputs.instruction⟩] else []

/-- The word stored, with the address it was requested from. -/
def written (r : CycleRecord) : List BufferEntry :=
  if r.outputs.wrote then [⟨r.outputs.request.address, r.inputs.memory.data⟩] else []

@[simp] theorem length_delivered (r : CycleRecord) : r.delivered.length = r.outputs.valid.toNat := by
  unfold delivered
  cases r.outputs.valid <;> rfl

@[simp] theorem length_written (r : CycleRecord) : r.written.length = r.outputs.wrote.toNat := by
  unfold written
  cases r.outputs.wrote <;> rfl

/-- A flush or a reset empties the buffer after this cycle. -/
def clears (r : CycleRecord) : Bool := r.outputs.flush || r.inputs.reset

end CycleRecord

namespace Engine

def record (e : Engine) (i : Inputs) : CycleRecord := ⟨e.cycle, i, e.outputs i⟩

section Staging
variable {e : Engine} (he : e.buffer.Settled) (i : Inputs)
include he

/-- Nothing illegal is staged, so the commit keeps the count in its range. -/
theorem staged_sound : (e.staged i).Sound := by
  have hw := Buffer.Sound.ite (e.receives i) (he.toSound.stageWrite ⟨e.state.currentAddress, i.memory.data⟩) he.toSound
  have hr := Buffer.Sound.ite (serves i) hw.stageRead hw
  exact Buffer.Sound.ite (e.mispredicts i) hr.stageFlush hr

omit he in
@[simp] theorem toList_staged : (e.staged i).toList = e.buffer.toList := by
  unfold staged
  simp only [apply_ite Buffer.toList, Buffer.toList_stageWrite, Buffer.toList_stageRead, Buffer.toList_stageFlush,
    ite_self]

theorem staged_intents :
    (e.staged i).staged =
      { write := if e.receives i && e.buffer.acceptsWrite then some ⟨e.state.currentAddress, i.memory.data⟩ else none
        read := (e.delivered i).isSome
        flush := e.mispredicts i } := by
  have hs := he.staged_eq
  unfold staged delivered
  cases hw : e.receives i <;> cases hr : serves i <;> cases hf : e.mispredicts i <;>
    cases ha : e.buffer.acceptsWrite <;>
    simp [Buffer.stageFlush, Buffer.staged_stageRead, Buffer.staged_stageWrite, Buffer.isSome_peek, hs, ha]

theorem toList_nextBuffer :
    (e.nextBuffer i).toList =
      if e.mispredicts i then []
      else (if (e.delivered i).isSome then e.buffer.toList.tail else e.buffer.toList) ++
        if e.receives i && e.buffer.acceptsWrite then [⟨e.state.currentAddress, i.memory.data⟩] else [] := by
  rw [nextBuffer, Buffer.toList_commit (staged_sound he i), staged_intents he, toList_staged]
  cases e.receives i && e.buffer.acceptsWrite <;> rfl

theorem next_settled : (e.next i).buffer.Settled := by
  unfold next
  split
  · exact Buffer.settled_empty
  · exact (staged_sound he i).commit

end Staging

section Record
variable {e : Engine} (i : Inputs)

theorem record_delivered (hr : i.reset = false) : (e.record i).delivered = (e.delivered i).toList := by
  unfold CycleRecord.delivered record outputs
  cases h : e.delivered i <;> simp [hr]

theorem record_written (hr : i.reset = false) :
    (e.record i).written =
      if e.receives i && e.buffer.acceptsWrite then [⟨e.state.currentAddress, i.memory.data⟩] else [] := by
  simp [CycleRecord.written, record, outputs, hr, request]

theorem record_clears : (e.record i).clears = (i.reset || e.mispredicts i) := by
  unfold CycleRecord.clears record outputs
  cases i.reset <;> simp

theorem record_delivered_of_held : (e.record i).delivered <+: e.buffer.toList := by
  cases hr : i.reset with
  | true => simp [CycleRecord.delivered, record, outputs, hr]
  | false =>
    rw [record_delivered i hr, delivered, Buffer.peek_eq_head?]
    cases serves i with
    | false => exact List.nil_prefix
    | true =>
      cases e.buffer.toList with
      | nil => exact List.nil_prefix
      | cons x xs => exact ⟨xs, rfl⟩

theorem toList_next_of_clears (h : (e.record i).clears) (he : e.buffer.Settled) : (e.next i).buffer.toList = [] := by
  rw [record_clears] at h
  unfold next
  cases hr : i.reset with
  | true => rfl
  | false =>
    rw [hr, Bool.false_or] at h
    exact (toList_nextBuffer he i).trans (if_pos h)

/-- Between two clearing cycles nothing is lost, repeated or reordered. -/
theorem toList_append_written (h : (e.record i).clears = false) (he : e.buffer.Settled) :
    e.buffer.toList ++ (e.record i).written = (e.record i).delivered ++ (e.next i).buffer.toList := by
  rw [record_clears, Bool.or_eq_false_iff] at h
  obtain ⟨hr, hf⟩ := h
  have hn : (e.next i).buffer = e.nextBuffer i := by simp [next, hr]
  rw [hn, toList_nextBuffer he i, record_delivered i hr, record_written i hr, hf]
  cases hd : e.delivered i with
  | none => rfl
  | some x =>
    have hp := record_delivered_of_held (e := e) i
    rw [record_delivered i hr, hd] at hp
    obtain ⟨rest, hrest⟩ := hp
    rw [← hrest]
    rfl

theorem mem_toList_next (he : e.buffer.Settled) {x : BufferEntry} (hx : x ∈ (e.next i).buffer.toList) :
    x ∈ e.buffer.toList ∨ (e.record i).clears = false ∧ x ∈ (e.record i).written := by
  cases hc : (e.record i).clears with
  | true =>
    rw [toList_next_of_clears i hc he] at hx
    simp at hx
  | false =>
    have hm := List.mem_append_right (e.record i).delivered hx
    rw [← toList_append_written i hc he] at hm
    rcases List.mem_append.mp hm with hm | hm
    · exact Or.inl hm
    · exact Or.inr ⟨rfl, hm⟩

@[simp] theorem outputs_request : (e.outputs i).request = e.request := by
  unfold outputs
  cases i.reset <;> rfl

theorem ready_of_wrote (h : (e.outputs i).wrote) : i.memory.ready := by
  unfold outputs at h
  cases hr : i.reset with
  | true => simp [hr] at h
  | false =>
    simp only [hr, receives, Bool.false_eq_true, if_false, Bool.and_eq_true] at h
    exact h.1.1

end Record

section Run

theorem step_of_lt {e : Engine} (h : e.cycle + 1 < Count.limit) (i : Inputs) :
    e.step i = .ok ({ e.next i with cycle := e.cycle + 1 }, e.outputs i) := by
  rw [step, Count.succ_of_lt h]
  rfl

theorem step_eq_ok {e t : Engine} {i : Inputs} {o : Outputs} (h : e.step i = .ok (t, o)) :
    e.cycle + 1 < Count.limit ∧ t = { e.next i with cycle := e.cycle + 1 } ∧ o = e.outputs i := by
  obtain ⟨cycle, hc, h⟩ := bind_eq_ok.mp h
  obtain ⟨rfl, hlt⟩ := Count.succ_eq_ok_iff.mp hc
  cases h
  exact ⟨hlt, rfl, rfl⟩

theorem run_cons {e t : Engine} {i : Inputs} {o : Outputs} (h : e.step i = .ok (t, o)) (is : List Inputs) :
    e.run (i :: is) = (t.run is).map fun p => (p.1, o :: p.2) := by
  rw [run, h]
  simp only [bind, Except.bind]
  cases t.run is <;> rfl

def records (n : Nat) : List Inputs → List Outputs → List CycleRecord
  | i :: is, o :: os => ⟨n, i, o⟩ :: records (n + 1) is os
  | _, _ => []

/-- A fresh engine can have gone through these cycles. -/
inductive Reached : List CycleRecord → Engine → Prop
  | initial : Reached [] .initial
  | step {rs : List CycleRecord} {e : Engine} (i : Inputs) :
    Reached rs e → Reached (rs ++ [e.record i]) { e.next i with cycle := e.cycle + 1 }

theorem Reached.settled {rs : List CycleRecord} {e : Engine} (h : Reached rs e) : e.buffer.Settled := by
  induction h with
  | initial => exact Buffer.settled_empty
  | step i _ ih => exact next_settled ih i

theorem Reached.at_cycle {rs past future : List CycleRecord} {e : Engine} {r : CycleRecord} (h : Reached rs e)
    (hrs : rs = past ++ r :: future) : ∃ t i, Reached past t ∧ r = t.record i := by
  induction h generalizing future with
  | initial => simp at hrs
  | @step rs e i hr ih =>
    rcases List.eq_nil_or_concat future with rfl | ⟨rest, last, rfl⟩
    · obtain ⟨rfl, hlast⟩ := List.append_inj' hrs rfl
      exact ⟨e, i, hr, (List.singleton_inj.mp hlast).symm⟩
    · rw [List.concat_eq_append, ← List.cons_append, ← List.append_assoc] at hrs
      exact ih (List.append_inj' hrs rfl).1

/-- As long as the cycle counter has room, a run returns, and its engine is reached through its records. -/
theorem Reached.run {rs : List CycleRecord} {e : Engine} (h : Reached rs e) (is : List Inputs)
    (hc : e.cycle + is.length < Count.limit) :
    ∃ t os, e.run is = .ok (t, os) ∧ os.length = is.length ∧ Reached (rs ++ records e.cycle is os) t := by
  induction is generalizing rs e with
  | nil => exact ⟨e, [], rfl, rfl, by simpa [records] using h⟩
  | cons i is ih =>
    rw [List.length_cons] at hc
    obtain ⟨t, os, hrun, hlen, hr⟩ := ih (h.step i) (by simp only; omega)
    refine ⟨t, e.outputs i :: os, ?_, by simp [hlen], ?_⟩
    · rw [run_cons (step_of_lt (by omega) i), hrun]
      rfl
    · simpa [records, record] using hr

end Run

end Engine

end FetchStage
