import FetchStage.Proofs.Simulator.Wait

/-! # Straight-line timing

Without branches, stalls or resets, only memory holds up the fetch. From the first cycle on the engine asks for one word after the
other, each for as many cycles as the latency. The word that an access brings stays in the buffer while the next one is fetched,
and leaves it in the cycle of the next answer. So a word is delivered in every multiple of the latency from the second on.
-/
namespace FetchStage

theorem Address.next_ofIndex (i : Nat) : (ofIndex i).next = ofIndex (i + 1) := by
  rw [next, ofIndex, ofIndex, Nat.mul_add, BitVec.ofNat_add]
  rfl

theorem Predictor.predict_initial (a : Address) (enabled : Bool) : initial.predict a enabled = .miss := by
  have hempty : initial.targets.lookup a = none := by simp [initial, TargetCache.lookup, TargetCache.empty, Vector.get]
  simp [predict, hempty]

theorem BranchTable.lookup_empty (a : Address) : empty.lookup a = none := by simp [lookup, empty, Vector.get]

/-- After the answer, or without a request, no access is in flight. -/
theorem LatencyPort.idle_of_respond {p q : LatencyPort} {r : Request} {x : Response} (h : p.respond r = .ok (x, q))
    (hx : r.readEnable → x.ready) : q.inFlight = none := by
  unfold respond at h
  split at h
  · rename_i hr
    obtain ⟨⟨f, u⟩, _, h⟩ := bind_eq_ok.mp h
    simp only at h
    split at h
    · cases h
      rfl
    · cases h
      simp [hr] at hx
  · cases h
    rfl

namespace Engine
variable {e : Engine} {x : Response}

/-- What the engine samples when only memory can hold it up. -/
def unhindered (e : Engine) (x : Response) : Inputs :=
  { memory := x, consume := true, stall := e.request.readEnable && !x.ready }

theorem mispredicts_unhindered : e.mispredicts (e.unhindered x) = false := rfl

theorem clears_unhindered : (e.record (e.unhindered x)).clears = false := rfl

/-- The engine moves on to the following word, unless it waits for the current one. -/
theorem state_unhindered (hp : e.predictor = .initial) (hroom : e.buffer.isFull = false) :
    (e.next (e.unhindered x)).state =
      if (e.unhindered x).stall then e.state else ⟨e.state.currentAddress.next, true⟩ := by
  have hmiss : e.prediction = .miss := by rw [prediction, hp, Predictor.predict_initial]
  have hnext : e.nextAddress (e.unhindered x) = e.state.currentAddress.next := by
    rw [nextAddress, mispredicts_unhindered, hmiss]
    rfl
  change e.nextState (e.unhindered x) = _
  rw [nextState, mispredicts_unhindered, hnext, hroom]
  cases (e.unhindered x).stall <;> rfl

theorem delivered_unhindered :
    (e.record (e.unhindered x)).delivered = if (e.unhindered x).stall then [] else e.buffer.toList.head?.toList := by
  rw [record_delivered _ rfl, delivered, Buffer.peek_eq_head?, serves]
  cases (e.unhindered x).stall <;> rfl

section Room
variable (hs : e.buffer.Settled) (hroom : e.buffer.isFull = false)
include hs hroom

theorem acceptsWrite_of_room : e.buffer.acceptsWrite := by
  rw [Buffer.acceptsWrite, hs.staged_eq, hroom]
  rfl

theorem written_unhindered :
    (e.record (e.unhindered x)).written =
      if x.ready && e.request.readEnable then [⟨e.request.address, x.data⟩] else [] := by
  rw [record_written _ rfl, acceptsWrite_of_room hs hroom, Bool.and_true]
  rfl

theorem dropped_unhindered : (e.outputs (e.unhindered x)).dropped = false := by
  change (e.receives (e.unhindered x) && !(e.receives (e.unhindered x) && e.buffer.acceptsWrite)) = false
  rw [acceptsWrite_of_room hs hroom, Bool.and_true, Bool.and_not_self]

end Room

end Engine

/-- The word that the buffer holds while word `k + 1` is fetched. Word zero has not been asked for. -/
def Image.previous (image : Image) (k : Nat) : List BufferEntry :=
  if k = 0 then [] else [⟨.ofIndex k, image.read (.ofIndex k)⟩]

theorem Image.mem_previous {image : Image} {k : Nat} {x : BufferEntry} :
    x ∈ image.previous k ↔ k ≠ 0 ∧ x = ⟨.ofIndex k, image.read (.ofIndex k)⟩ := by
  by_cases hk : k = 0 <;> simp [previous, hk]

theorem Image.length_previous_le (image : Image) (k : Nat) : (image.previous k).length ≤ 1 := by
  unfold previous
  split <;> simp

/-- A cycle of a fetch that only memory holds up. -/
structure CycleRecord.StraightLine (latency : Nat) (image : Image) (r : CycleRecord) : Prop where
  valid : r.outputs.valid ↔ latency ∣ r.cycle ∧ 2 * latency ≤ r.cycle
  pc : r.outputs.valid → r.outputs.pc = .ofIndex (r.cycle / latency - 1)
  instruction : r.outputs.valid → r.outputs.instruction = image.read r.outputs.pc
  occupancy : r.outputs.occupancy ≤ 1
  dropped : r.outputs.dropped = false
  mispredicted : r.outputs.mispredicted = false

namespace Simulator
variable {s t : Simulator LatencyPort} {r : CycleRecord} {latency k n : Nat} {image : Image}

/-- Nothing but memory can hold up the fetch or redirect it, now or later. -/
structure Undisturbed (latency : Nat) (image : Image) (s : Simulator LatencyPort) : Prop extends Paced latency s where
  latency_pos : 0 < latency
  image_eq : s.port.image = image
  settled : s.engine.buffer.Settled
  count_le : s.engine.buffer.count ≤ 1
  predictor : s.engine.predictor = .initial
  queue : s.resolver.queue = []
  truth : s.truth = .empty
  reset : s.pendingReset = false
  period : s.consumer.period = 1
  stalls : ∀ cycle, s.consumer.stalls cycle = false

namespace Undisturbed

theorem room (h : s.Undisturbed latency image) : s.engine.buffer.isFull = false := by
  have hcount := h.count_le
  rw [Buffer.isFull, beq_eq_false_iff_ne]
  intro hfull
  rw [hfull] at hcount
  exact absurd hcount (by decide)

theorem take_eq (h : s.Undisturbed latency image) : s.resolver.take s.cycle = (.idle, s.resolver) := by
  rw [Resolver.take, h.queue]

theorem deliveredBranch_eq (h : s.Undisturbed latency image) (o : Outputs) : s.deliveredBranch o = none := by
  rw [deliveredBranch, h.truth, BranchTable.lookup_empty, ite_self]

theorem inputs_eq (h : s.Undisturbed latency image) (hs : s.Stepped t r) :
    r.inputs = s.engine.unhindered r.inputs.memory := by
  have hconsumes : s.consumer.consumes s.cycle = true := by simp [Consumer.consumes, h.period, Nat.mod_one]
  rw [hs.inputs]
  simp only [inputs, Consumer.drive, hconsumes, h.stalls, h.reset, h.take_eq, Bool.false_or]
  rfl

theorem record_eq (h : s.Undisturbed latency image) (hs : s.Stepped t r) :
    r = s.engine.record (s.engine.unhindered r.inputs.memory) := by
  rw [← h.inputs_eq hs]
  exact hs.record_eq

theorem engine_eq (h : s.Undisturbed latency image) (hs : s.Stepped t r) :
    t.engine = { s.engine.next (s.engine.unhindered r.inputs.memory) with cycle := s.cycle + 1 } := by
  rw [← h.inputs_eq hs]
  exact hs.engine

/-- What was held is delivered, or still held beside the word written. -/
theorem held_append (h : s.Undisturbed latency image) (hs : s.Stepped t r) :
    s.engine.buffer.toList ++ r.written = r.delivered ++ t.engine.buffer.toList := by
  have hkept := Engine.toList_append_written _ (Engine.clears_unhindered (x := r.inputs.memory)) h.settled
  rw [← h.record_eq hs] at hkept
  rw [h.engine_eq hs]
  exact hkept

theorem written_eq (h : s.Undisturbed latency image) (hs : s.Stepped t r) :
    r.written = if r.inputs.memory.ready && s.engine.request.readEnable then
      [⟨s.engine.request.address, r.inputs.memory.data⟩] else [] := by
  have hwritten := Engine.written_unhindered (x := r.inputs.memory) h.settled h.room
  rw [← h.record_eq hs] at hwritten
  exact hwritten

theorem delivered_eq (h : s.Undisturbed latency image) (hs : s.Stepped t r) :
    r.delivered = if r.inputs.stall then [] else s.engine.buffer.toList := by
  have hcount := h.count_le
  have hall : s.engine.buffer.toList.head?.toList = s.engine.buffer.toList := by
    rw [← Buffer.length_toList] at hcount
    cases hheld : s.engine.buffer.toList with
    | nil => rfl
    | cons x rest =>
      rw [hheld, List.length_cons] at hcount
      rw [List.length_eq_zero_iff.mp (show rest.length = 0 by omega)]
      rfl
  have hdelivered := Engine.delivered_unhindered (e := s.engine) (x := r.inputs.memory)
  rw [← h.record_eq hs, ← h.inputs_eq hs, hall] at hdelivered
  exact hdelivered

theorem step (h : s.Undisturbed latency image) (hs : s.Stepped t r) (hheld : t.engine.buffer.toList = image.previous k) :
    t.Undisturbed latency image := by
  have hrest := hs.rest
  have hqueue : t.resolver = s.resolver := by
    obtain ⟨_, htaken⟩ | ⟨b, _, hb, _⟩ := hs.resolver_cases
    · rw [htaken, h.take_eq]
    · rw [h.deliveredBranch_eq] at hb
      cases hb
  exact {
    toPaced := h.toPaced.step hs
    latency_pos := h.latency_pos
    image_eq := (serves_of_stepped h.image_eq hs).1
    settled := by
      rw [hs.engine]
      exact Engine.next_settled h.settled r.inputs
    count_le := by
      rw [← Buffer.length_toList, hheld]
      exact image.length_previous_le k
    predictor := by
      rw [h.engine_eq hs]
      exact h.predictor
    queue := by rw [hqueue, h.queue]
    truth := by rw [hrest, h.truth]
    reset := by rw [hrest]
    period := by rw [hrest, h.period]
    stalls := by
      rw [hrest]
      exact h.stalls }

/-- No branch is known, so nothing has to be scheduled, and only the cycle counter can refuse. -/
theorem step_returns (h : s.Undisturbed latency image) (hn : s.cycle + 1 < Count.limit) :
    ∃ t r, s.step = .ok (t, r) := by
  obtain ⟨⟨x, port⟩, hm⟩ := h.respond_returns hn
  apply h.counted.step_returns hn hm
  intro b hb
  rw [h.deliveredBranch_eq] at hb
  cases hb

/-- A cycle that does not wait starts on the following word. -/
theorem moves (h : s.Undisturbed latency image) (hs : s.Stepped t r) (hmove : r.inputs.stall = false) :
    t.Waiting s.engine.request.address.next latency := by
  have hlatency := h.latency_pos
  have hrequest : t.engine.request = ⟨s.engine.request.address.next, true⟩ := by
    have hstate := Engine.state_unhindered (x := r.inputs.memory) h.predictor h.room
    rw [← h.inputs_eq hs, hmove] at hstate
    rw [h.engine_eq hs, ← h.inputs_eq hs, Engine.request, hstate]
    rfl
  have hidle : t.port.inFlight = none := by
    apply LatencyPort.idle_of_respond hs.memory
    intro hread
    rw [h.inputs_eq hs, Engine.unhindered, hread] at hmove
    simpa using hmove
  have haccess : t.port.timing.access s.engine.request.address.next = .ok (latency, .fixed latency) := by
    rw [(h.toPaced.step hs).timing]
    rfl
  exact ⟨hrequest, Or.inr ⟨by simp [hidle], latency, _, haccess, by omega⟩, hlatency⟩

theorem straightLine (h : s.Undisturbed latency image) (hs : s.Stepped t r)
    (hd : ∀ x, x ∈ r.delivered ↔ latency ∣ r.cycle ∧ x ∈ image.previous (r.cycle / latency - 1)) :
    r.StraightLine latency image := by
  have hsecond : r.cycle / latency - 1 ≠ 0 ↔ 2 * latency ≤ r.cycle := by
    rw [← Nat.le_div_iff_mul_le h.latency_pos]
    omega
  have hshown : r.outputs.valid → latency ∣ r.cycle ∧ r.cycle / latency - 1 ≠ 0 ∧
      (⟨r.outputs.pc, r.outputs.instruction⟩ : BufferEntry) =
        ⟨.ofIndex (r.cycle / latency - 1), image.read (.ofIndex (r.cycle / latency - 1))⟩ := by
    intro hv
    rw [← Image.mem_previous, ← hd]
    simp [CycleRecord.delivered, hv]
  have hpc : r.outputs.valid → r.outputs.pc = .ofIndex (r.cycle / latency - 1) :=
    fun hv => congrArg BufferEntry.address (hshown hv).2.2
  have hdropped := Engine.dropped_unhindered (x := r.inputs.memory) h.settled h.room
  rw [← h.inputs_eq hs, ← hs.outputs] at hdropped
  exact {
    valid := by
      rw [← hsecond]
      constructor
      · intro hv
        exact ⟨(hshown hv).1, (hshown hv).2.1⟩
      · rintro ⟨hdvd, hk⟩
        have hmem := (hd _).mpr ⟨hdvd, Image.mem_previous.mpr ⟨hk, rfl⟩⟩
        exact (List.mem_ite_nil_right.mp hmem).1
    pc := hpc
    instruction := by
      intro hv
      rw [hpc hv]
      exact congrArg BufferEntry.word (hshown hv).2.2
    occupancy := by
      rw [hs.outputs, Engine.outputs_occupancy]
      exact h.count_le
    dropped := hdropped
    mispredicted := by
      rw [h.record_eq hs]
      rfl }

end Undisturbed

/-- The access for word `k + 1` has `n` cycles left. Each access before it has had its whole latency. -/
structure Fetches (latency : Nat) (image : Image) (k n : Nat) (s : Simulator LatencyPort) : Prop
    extends Undisturbed latency image s where
  waiting : s.Waiting (.ofIndex (k + 1)) n
  le_latency : n ≤ latency
  cycle_add : s.cycle + n = latency * (k + 1) + 1
  held : s.engine.buffer.toList = image.previous k

namespace Fetches

theorem waits (h : s.Fetches latency image k n) (hn : 1 < n) (hs : s.Stepped t r) :
    r.delivered = [] ∧ t.Fetches latency image k (n - 1) := by
  have hawaits := h.waiting.awaits_of_stepped hs
  have hcycle := h.cycle_add
  have hle := h.le_latency
  have hdelivered : r.delivered = [] := by rw [h.delivered_eq hs, if_pos (hawaits.stall hn)]
  have hwritten : r.written = [] := by
    rw [h.written_eq hs, hawaits.memory, if_neg (Nat.ne_of_gt hn)]
    rfl
  have hheld : t.engine.buffer.toList = image.previous k := by
    have hkept := h.held_append hs
    rw [hdelivered, hwritten, List.append_nil, List.nil_append, h.held] at hkept
    exact hkept.symm
  have hkeeps : r.withdraws = false := by
    rw [CycleRecord.withdraws, hs.outputs, Engine.outputs_bufferFull, h.room, h.record_eq hs]
    rfl
  refine ⟨hdelivered, h.toUndisturbed.step hs hheld, h.waiting.step hn hs hkeeps, by omega, ?_, hheld⟩
  rw [hs.cycle_succ]
  omega

theorem answered (h : s.Fetches latency image k 1) (hs : s.Stepped t r) :
    r.delivered = image.previous k ∧ t.Fetches latency image (k + 1) latency := by
  have hmemory := (h.waiting.awaits_of_stepped hs).memory
  rw [if_pos rfl, h.image_eq] at hmemory
  have hcycle := h.cycle_add
  have hrequest := h.waiting.request
  have hmove : r.inputs.stall = false := by
    rw [h.inputs_eq hs, Engine.unhindered, hrequest, hmemory]
    rfl
  have hdelivered : r.delivered = image.previous k := by
    rw [h.delivered_eq hs, hmove, h.held]
    rfl
  have hheld : t.engine.buffer.toList = image.previous (k + 1) := by
    have hkept := h.held_append hs
    rw [hdelivered, h.held, h.written_eq hs, hrequest, hmemory] at hkept
    exact (List.append_cancel_left hkept).symm
  have hwaiting := h.moves hs hmove
  rw [hrequest, Address.next_ofIndex] at hwaiting
  refine ⟨hdelivered, h.toUndisturbed.step hs hheld, hwaiting, Nat.le_refl _, ?_, hheld⟩
  rw [hs.cycle_succ, hcycle, Nat.mul_add latency (k + 1), Nat.mul_one]
  omega

theorem step (h : s.Fetches latency image k n) (hs : s.Stepped t r) :
    r.StraightLine latency image ∧ ∃ k n, t.Fetches latency image k n := by
  have hcycle := h.cycle_add
  rw [← hs.cycle] at hcycle
  by_cases hlast : n = 1
  · subst hlast
    obtain ⟨hdelivered, ht⟩ := h.answered hs
    have hmultiple : r.cycle = latency * (k + 1) := by omega
    refine ⟨h.straightLine hs ?_, _, _, ht⟩
    intro x
    rw [hdelivered, hmultiple, Nat.mul_div_cancel_left _ h.latency_pos, Nat.add_sub_cancel]
    exact (and_iff_right (Nat.dvd_mul_right _ _)).symm
  · have hpos := h.waiting.pos
    have hle := h.le_latency
    obtain ⟨hdelivered, ht⟩ := h.waits (by omega) hs
    have hbetween : ¬latency ∣ r.cycle := by
      rw [Nat.mul_add, Nat.mul_one] at hcycle
      apply Nat.not_dvd_of_lt_of_lt_mul_succ (k := k)
      · omega
      · rw [Nat.mul_add, Nat.mul_one]
        omega
    refine ⟨h.straightLine hs ?_, _, _, ht⟩
    simp [hdelivered, hbetween]

end Fetches

/-- The cycle before the first access. -/
theorem Undisturbed.first (h : s.Undisturbed latency image) (he : s.engine = .initial) (hs : s.Stepped t r) :
    r.StraightLine latency image ∧ t.Fetches latency image 0 latency := by
  have hmove : r.inputs.stall = false := by
    rw [h.inputs_eq hs, he]
    rfl
  have hempty : s.engine.buffer.toList = [] := by rw [he]; rfl
  have hcycle : s.cycle = 0 := by rw [cycle, he]; rfl
  have hdelivered : r.delivered = [] := by rw [h.delivered_eq hs, hempty, ite_self]
  have hwritten : r.written = [] := by
    rw [h.written_eq hs, he]
    simp [Engine.request, Engine.initial]
  have hheld : t.engine.buffer.toList = image.previous 0 := by
    have hkept := h.held_append hs
    rw [hempty, hwritten, hdelivered] at hkept
    exact hkept.symm
  have hwaiting := h.moves hs hmove
  rw [he] at hwaiting
  constructor
  · apply h.straightLine hs
    intro x
    rw [hdelivered, hs.cycle, hcycle, Nat.zero_div]
    simp [Image.previous]
  · refine ⟨h.step hs hheld, hwaiting, Nat.le_refl _, ?_, hheld⟩
    rw [hs.cycle_succ, hcycle]
    omega

/-- No cycle has passed yet, or an access is going on. -/
def Timed (latency : Nat) (image : Image) (s : Simulator LatencyPort) : Prop :=
  (s.Undisturbed latency image ∧ s.engine = .initial) ∨ ∃ k n, s.Fetches latency image k n

namespace Timed

theorem undisturbed (h : s.Timed latency image) : s.Undisturbed latency image := by
  rcases h with ⟨hfresh, _⟩ | ⟨_, _, hfetches⟩
  · exact hfresh
  · exact hfetches.toUndisturbed

theorem step (h : s.Timed latency image) (hs : s.Stepped t r) : r.StraightLine latency image ∧ t.Timed latency image := by
  rcases h with ⟨hfresh, hengine⟩ | ⟨_, _, hfetches⟩
  · obtain ⟨hr, ht⟩ := hfresh.first hengine hs
    exact ⟨hr, Or.inr ⟨_, _, ht⟩⟩
  · obtain ⟨hr, ht⟩ := hfetches.step hs
    exact ⟨hr, Or.inr ht⟩

theorem perform (h : s.Timed latency image) (n : Nat) (hn : s.cycle + n < Count.limit) :
    ∃ t rs, s.perform (List.replicate n .step) = .ok (t, rs) ∧ t.Timed latency image ∧
      ∀ r ∈ rs, r.StraightLine latency image := by
  induction n generalizing s with
  | zero => exact ⟨s, [], rfl, h, by simp⟩
  | succ n ih =>
    obtain ⟨u, r, hstep⟩ := h.undisturbed.step_returns (by omega)
    have hs := stepped_of_step hstep
    obtain ⟨hr, hu⟩ := h.step hs
    obtain ⟨t, rs, hrest, ht, hrs⟩ := ih hu (by rw [hs.cycle_succ]; omega)
    exact ⟨t, r :: rs, perform_steps_succ.mpr ⟨u, r, rs, hstep, hrest, rfl⟩, ht, List.forall_mem_cons.mpr ⟨hr, hrs⟩⟩

end Timed

theorem timed_ofProgram {c : Config} {program : Array Word} (h : ofProgram c program .empty = .ok s)
    (hc : c.memory.controller = .simple) (hl : 0 < c.memory.latency) (hp : c.consumer.period = 1)
    (hw : c.consumer.stallEvery = 0 ∨ c.consumer.stallLength = 0) :
    s.Timed c.memory.latency ⟨program, c.memory.fill⟩ := by
  have hcounted := counted_withPort h
  have hstalls : ∀ cycle, c.consumer.stalls cycle = false := by
    intro cycle
    rcases hw with hw | hw <;> simp [Consumer.stalls, hw]
  obtain ⟨_, _, h⟩ := bind_eq_ok.mp h
  cases h
  refine Or.inl ⟨?_, rfl⟩
  exact {
    counted := hcounted
    timing := by simp [MemoryConfig.timing, hc]
    accesses := Nat.le_refl 0
    latency_pos := hl
    image_eq := rfl
    settled := Buffer.settled_empty
    count_le := Nat.zero_le 1
    predictor := rfl
    queue := rfl
    truth := rfl
    reset := rfl
    period := hp
    stalls := hstalls }

theorem validate_of_straight {c : Config} (hc : c.memory.controller = .simple) (hl : 0 < c.memory.latency)
    (hd : 0 < c.resolution.delay) (hp : c.consumer.period = 1)
    (hw : c.consumer.stallEvery = 0 ∨ c.consumer.stallLength = 0) : c.validate = .ok () := by
  refine Config.validate_eq_ok.mpr ⟨hl, ?_, by omega, by omega, hd⟩
  rw [hc]
  intro h
  cases h

/-- Only memory can hold up a program without known branches whose consumer is always ready. As long as the cycles can be counted,
a word is delivered in every multiple of the latency from the second on, one word after the other, and in no other cycle. -/
theorem perform_straightLine (c : Config) (program : Array Word) (hc : c.memory.controller = .simple)
    (hl : 1 ≤ c.memory.latency) (hd : 1 ≤ c.resolution.delay) (hp : c.consumer.period = 1)
    (hw : c.consumer.stallEvery = 0 ∨ c.consumer.stallLength = 0) :
    ∃ s, ofProgram c program .empty = .ok s ∧ ∀ n < Count.limit, ∃ t rs,
      s.perform (List.replicate n .step) = .ok (t, rs) ∧ rs.map (·.cycle) = List.range n ∧ t.engine.buffer.count ≤ 1 ∧
      ∀ r ∈ rs, r.StraightLine c.memory.latency ⟨program, c.memory.fill⟩ := by
  obtain ⟨s, hs⟩ : ∃ s, ofProgram c program .empty = .ok s :=
    ⟨_, bind_eq_ok.mpr ⟨(), validate_of_straight hc hl hd hp hw, rfl⟩⟩
  have hcycle : s.cycle = 0 := by
    obtain ⟨_, _, hfresh⟩ := bind_eq_ok.mp hs
    cases hfresh
    rfl
  refine ⟨s, hs, ?_⟩
  intro n hn
  obtain ⟨t, rs, h, ht, hrs⟩ := (timed_ofProgram hs hc hl hp hw).perform n (by omega)
  have hcycles := map_cycle_steps h
  rw [hcycle, ← List.range_eq_range'] at hcycles
  exact ⟨t, rs, h, hcycles, ht.undisturbed.count_le, hrs⟩

/-- Three cycles for each access, and a program of two words: after the first delivery there are only fill words. -/
theorem perform_straightLine_fill :
    ∃ c s t rs r, c = { memory := { latency := 3, fill := 0x6F }, consumer := ⟨1, 4, 0⟩, resolution := ⟨5⟩ } ∧
      ofProgram c #[0x13, 0x93] .empty = .ok s ∧ s.perform (List.replicate 14 .step) = .ok (t, rs) ∧ r ∈ rs ∧
      r.cycle = 12 ∧ r.outputs.valid ∧ r.outputs.pc = 0xC ∧ r.outputs.instruction = 0x6F ∧
      (∀ q ∈ rs, q.outputs.valid → q.cycle = 6 ∨ q.cycle = 9 ∨ q.cycle = 12) := by
  obtain ⟨s, hs, hall⟩ := perform_straightLine
    { memory := { latency := 3, fill := 0x6F }, consumer := ⟨1, 4, 0⟩, resolution := ⟨5⟩ } #[0x13, 0x93] rfl (by decide)
    (by decide) rfl (by decide)
  obtain ⟨t, rs, h, hcycles, _, hrs⟩ := hall 14 (by decide)
  have htwelve : 12 ∈ rs.map (·.cycle) := by
    rw [hcycles]
    decide
  obtain ⟨r, hr, hat⟩ := List.mem_map.mp htwelve
  have hline := hrs r hr
  have hvalid : r.outputs.valid := by
    rw [hline.valid, hat]
    decide
  have hpc : r.outputs.pc = 0xC := by
    rw [hline.pc hvalid, hat]
    decide
  have hinstruction : r.outputs.instruction = 0x6F := by
    rw [hline.instruction hvalid, hpc]
    decide
  refine ⟨_, s, t, rs, r, rfl, hs, h, hr, hat, hvalid, hpc, hinstruction, ?_⟩
  intro q hq hv
  have hlt : q.cycle ∈ List.range 14 := by
    rw [← hcycles]
    exact List.mem_map_of_mem hq
  have hwhen := (hrs q hq).valid.mp hv
  simp only [List.mem_range] at hlt
  simp only at hwhen
  omega

end Simulator

end FetchStage
