import FetchStage.Proofs.Engine.Cycle
import FetchStage.Proofs.Predictor.History

/-! # The engine against a machine without tables

The reference machine keeps the fetch registers, the buffered words as a plain list, and the branches resolved since
the last reset. Each cycle's outputs come from the state before the cycle. The engine, with its ring and its two tables,
produces the same outputs cycle for cycle, and no cycle takes the occupancy out of its range.
-/
namespace FetchStage

structure Reference where
  address : Address := 0
  pending : Bool := false
  queue : List BufferEntry := []
  /-- Branches resolved on earlier cycles, oldest first. -/
  facts : List Resolution := []
  bounded : queue.length ≤ bufferDepth := by decide

namespace Reference

/-- The lookup of the current address, which knows the facts of earlier cycles only. -/
def prediction (m : Reference) : Prediction :=
  if m.pending then History.predict m.facts m.address else .miss

/-- A resolved branch differs from the lookup in direction, or is taken elsewhere; a miss expects no taken branch. -/
def flushes (m : Reference) (i : Inputs) : Bool :=
  match i.resolution.resolved, m.prediction with
  | false, _ => false
  | true, ⟨true, taken, target⟩ =>
    decide (i.resolution.taken ≠ taken ∨ i.resolution.taken = true ∧ i.resolution.target ≠ target)
  | true, ⟨false, _, _⟩ => i.resolution.taken

def nextAddress (m : Reference) (i : Inputs) : Address :=
  if m.flushes i then i.resolution.target
  else if m.prediction.valid ∧ m.prediction.taken then m.prediction.target
  else m.address + 4

def arrives (m : Reference) (i : Inputs) : Bool := i.memory.ready && m.pending

def appends (m : Reference) (i : Inputs) : Bool := m.arrives i && decide (m.queue.length < bufferDepth)

def pops (m : Reference) (i : Inputs) : Bool := i.consume && !i.stall && !m.queue.isEmpty

def nextQueue (m : Reference) (i : Inputs) : List BufferEntry :=
  if i.reset || m.flushes i then []
  else
    (if m.pops i then m.queue.tail else m.queue) ++
      if m.appends i then [⟨m.address, i.memory.data⟩] else []

theorem length_nextQueue (m : Reference) (i : Inputs) : (m.nextQueue i).length ≤ bufferDepth := by
  have hb := m.bounded
  have ht : (if m.pops i then m.queue.tail else m.queue).length ≤ m.queue.length := by
    cases m.pops i <;> simp
  unfold nextQueue
  split
  · exact Nat.zero_le _
  · rw [List.length_append]
    cases ha : m.appends i with
    | false => exact Nat.le_trans ht hb
    | true =>
      simp only [appends, Bool.and_eq_true, decide_eq_true_eq] at ha
      exact Nat.lt_of_le_of_lt ht ha.2

def popped (m : Reference) (i : Inputs) : Option BufferEntry := if m.pops i then m.queue.head? else none

theorem isSome_popped (m : Reference) (i : Inputs) : (m.popped i).isSome = m.pops i := by
  unfold popped pops
  cases m.queue <;> cases i.consume <;> cases i.stall <;> rfl

/-- The registers after a cycle. With a full queue the request is withdrawn; a stall alone holds both. -/
def registers (m : Reference) (i : Inputs) : FetchState :=
  if i.reset then ⟨0, false⟩
  else if m.flushes i then ⟨i.resolution.target, true⟩
  else if ¬i.stall ∧ m.queue.length < bufferDepth then ⟨m.nextAddress i, true⟩
  else if m.queue.length = bufferDepth then ⟨m.address, false⟩
  else ⟨m.address, m.pending⟩

def next (m : Reference) (i : Inputs) : Reference where
  address := (m.registers i).currentAddress
  pending := (m.registers i).requestPending
  queue := m.nextQueue i
  facts :=
    if i.reset then []
    else if i.resolution.resolved then m.facts ++ [i.resolution]
    else m.facts
  bounded := m.length_nextQueue i

/-- The signals of a cycle. On a reset only the request and the state of the queue are shown. -/
def outputs (m : Reference) (i : Inputs) : Outputs :=
  let idle : Outputs :=
    { request := ⟨m.address, m.pending⟩
      bufferFull := decide (m.queue.length = bufferDepth)
      bufferEmpty := m.queue.isEmpty
      occupancy := m.queue.length
      nextState := m.registers i }
  if i.reset then idle
  else
    { idle with
      instruction := ((m.popped i).map (·.word)).getD 0
      pc := ((m.popped i).map (·.address)).getD 0
      valid := (m.popped i).isSome
      prediction := m.prediction
      mispredicted := m.flushes i
      flush := m.flushes i
      nextAddress := m.nextAddress i
      wrote := m.appends i
      dropped := m.arrives i && decide (m.queue.length = bufferDepth) }

def trace (m : Reference) : List Inputs → List Outputs
  | [] => []
  | i :: is => m.outputs i :: (m.next i).trace is

end Reference

structure Engine.Refines (e : Engine) (m : Reference) : Prop where
  state : e.state = ⟨m.address, m.pending⟩
  settled : e.buffer.Settled
  entries : e.buffer.toList = m.queue
  predictor : e.predictor = .ofFacts m.facts

namespace Engine.Refines
variable {e : Engine} {m : Reference} (h : e.Refines m) (i : Inputs)
include h

theorem prediction_eq : e.prediction = m.prediction := by
  rw [Engine.prediction, h.predictor, Predictor.predict_ofFacts, h.state]
  rfl

theorem mispredicts_eq : e.mispredicts i = m.flushes i := by
  unfold Engine.mispredicts Prediction.refutedBy Reference.flushes
  rw [h.prediction_eq]
  rcases m.prediction with ⟨valid, taken, target⟩
  cases i.resolution.resolved with
  | false => rfl
  | true =>
    cases valid with
    | false => rfl
    | true =>
      rw [Bool.eq_iff_iff]
      simp

theorem nextAddress_eq : e.nextAddress i = m.nextAddress i := by
  unfold Engine.nextAddress Reference.nextAddress
  rw [h.mispredicts_eq, h.prediction_eq, h.state]
  simp only [Prediction.redirects, Bool.and_eq_true]
  rfl

theorem isFull_eq : e.buffer.isFull = decide (m.queue.length = bufferDepth) := by
  rw [Buffer.isFull_eq, h.entries]

theorem receives_eq : e.receives i = m.arrives i := by
  rw [Engine.receives, h.state]
  rfl

theorem wrote_eq : (e.receives i && e.buffer.acceptsWrite) = m.appends i := by
  have hb := m.bounded
  have hroom : decide (m.queue.length < bufferDepth) = !decide (m.queue.length = bufferDepth) := by
    rw [← decide_not, decide_eq_decide]
    omega
  unfold Buffer.acceptsWrite Reference.appends
  rw [h.receives_eq, h.isFull_eq, h.settled.staged_eq, hroom]
  simp

theorem dropped_eq : (e.receives i && !m.appends i) = (m.arrives i && decide (m.queue.length = bufferDepth)) := by
  rw [← h.wrote_eq, h.receives_eq, Buffer.acceptsWrite, h.isFull_eq, h.settled.staged_eq]
  cases m.arrives i <;> simp

theorem delivered_eq : e.delivered i = m.popped i := by
  unfold Engine.delivered Reference.popped Reference.pops
  rw [Buffer.peek_eq_head?, h.entries]
  cases m.queue with
  | nil => simp
  | cons x xs => simp [Engine.serves]

theorem nextState_eq (hr : i.reset = false) : e.nextState i = m.registers i := by
  unfold Engine.nextState Reference.registers
  have hb := m.bounded
  rw [h.mispredicts_eq, h.isFull_eq, h.nextAddress_eq, h.state]
  by_cases hq : m.queue.length = bufferDepth
  · simp [hr, hq]
  · have hlt : m.queue.length < bufferDepth := by omega
    simp [hr, hq, hlt]

theorem outputs_eq : e.outputs i = m.outputs i := by
  have hreq : e.request = ⟨m.address, m.pending⟩ := by rw [Engine.request, h.state]
  have hcount : e.buffer.count = m.queue.length := by rw [← h.entries, Buffer.length_toList]
  have hempty : e.buffer.isEmpty = m.queue.isEmpty := by rw [Buffer.isEmpty_eq, h.entries]
  unfold Engine.outputs Reference.outputs
  cases hr : i.reset with
  | true =>
    simp only [hreq, hcount, hempty, h.isFull_eq, Reference.registers, hr, if_true]
  | false =>
    simp only [hreq, hcount, hempty, h.isFull_eq, h.nextState_eq i hr, h.delivered_eq, h.prediction_eq,
      h.mispredicts_eq, h.nextAddress_eq, h.wrote_eq, h.dropped_eq, Bool.false_eq_true, if_false]

theorem next : (e.next i).Refines (m.next i) := by
  have hset := Engine.next_settled h.settled i
  cases hr : i.reset with
  | true =>
    simp only [Engine.next, hr, if_true] at hset ⊢
    refine ⟨?_, hset, ?_, ?_⟩
    · simp [Reference.next, Reference.registers, hr, Engine.reset, Engine.initial]
    · simp [Reference.next, Reference.nextQueue, hr, Engine.reset, Engine.initial]
    · simp [Reference.next, hr, Engine.reset, Engine.initial, Predictor.ofFacts]
  | false =>
    simp only [Engine.next, hr, Bool.false_eq_true, if_false] at hset ⊢
    refine ⟨h.nextState_eq i hr, hset, ?_, ?_⟩
    · change (e.nextBuffer i).toList = m.nextQueue i
      rw [Engine.toList_nextBuffer h.settled, h.mispredicts_eq, h.delivered_eq, h.entries, h.wrote_eq, h.state,
        Reference.isSome_popped]
      simp only [Reference.nextQueue, hr, Bool.false_or]
    · simp only [Reference.next, Predictor.update, h.predictor, hr, Bool.false_eq_true, if_false]
      split
      · rw [Predictor.ofFacts_concat]
      · rfl

end Engine.Refines

namespace Engine

theorem refines_initial : initial.Refines {} :=
  ⟨rfl, Buffer.settled_empty, rfl, rfl⟩

theorem Refines.run {e : Engine} {m : Reference} (h : e.Refines m) (is : List Inputs)
    (hc : e.cycle + is.length < Count.limit) :
    ∃ t, e.run is = .ok (t, m.trace is) ∧ t.Refines (is.foldl Reference.next m) := by
  induction is generalizing e m with
  | nil => exact ⟨e, rfl, h⟩
  | cons i is ih =>
    rw [List.length_cons] at hc
    have hn := h.next i
    have hstep : Refines { e.next i with cycle := e.cycle + 1 } (m.next i) :=
      ⟨hn.state, hn.settled, hn.entries, hn.predictor⟩
    obtain ⟨t, hrun, ht⟩ := ih hstep (by simp only; omega)
    refine ⟨t, ?_, ht⟩
    rw [run_cons (step_of_lt (by omega) i), hrun, h.outputs_eq]
    rfl

/-- What is staged is legal, and the occupancy moves by exactly what is stored and delivered, so it is not cut off at zero
or at the depth. Ring positions and table slots are bounded by their types. -/
structure InRange (e : Engine) (i : Inputs) : Prop where
  legal : (e.staged i).Sound
  count_le : (e.next i).buffer.count ≤ bufferDepth
  balance : (e.record i).clears = false →
    (e.next i).buffer.count + (e.outputs i).valid.toNat = e.buffer.count + (e.outputs i).wrote.toNat

theorem inRange_of_settled {e : Engine} (he : e.buffer.Settled) (i : Inputs) : e.InRange i where
  legal := staged_sound he i
  count_le := (next_settled he i).count_le
  balance := by
    intro hc
    have hl := congrArg List.length (toList_append_written i hc he)
    simp only [List.length_append, Buffer.length_toList, CycleRecord.length_delivered,
      CycleRecord.length_written] at hl
    simp only [record] at hl
    omega

/-- Cycle for cycle the engine is the reference machine, and no cycle leaves the range of the occupancy. -/
theorem run_eq_trace (is : List Inputs) (h : is.length < Count.limit) :
    (∃ e, initial.run is = .ok (e, Reference.trace {} is)) ∧
    ∀ before i after, is = before ++ i :: after →
      ∃ e os, initial.run before = .ok (e, os) ∧ e.InRange i := by
  constructor
  · obtain ⟨e, hrun, _⟩ := refines_initial.run is (by simpa only [initial, Nat.zero_add] using h)
    exact ⟨e, hrun⟩
  · rintro before i after rfl
    rw [List.length_append] at h
    obtain ⟨e, hrun, he⟩ := refines_initial.run before (by simp only [initial]; omega)
    exact ⟨e, _, hrun, inRange_of_settled he.settled i⟩

/-- Four cycles: a request is armed, a word is stored, the next word and the first delivery meet a flush, and a reset
follows. -/
theorem run_eq_trace_flush :
    ∃ is : List Inputs,
      is = [{}, { memory := ⟨0x13, true⟩ },
        { memory := ⟨0x93, true⟩, consume := true, resolution := ⟨true, true, 0x40, 0x100⟩ }, { reset := true }] ∧
      is.length < Count.limit ∧
      (∃ e, initial.run is = .ok (e, Reference.trace {} is)) ∧
      ∀ before i after, is = before ++ i :: after →
        ∃ e os, initial.run before = .ok (e, os) ∧ e.InRange i :=
  ⟨_, rfl, by decide, run_eq_trace _ (by decide)⟩

end Engine

end FetchStage
