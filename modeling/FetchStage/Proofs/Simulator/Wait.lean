import FetchStage.Proofs.Engine.Contract
import FetchStage.Proofs.Simulator.Capacity
import FetchStage.Proofs.Simulator.Delivery

/-! # Waiting for memory

The engine has no input for a memory that is not ready: the simulator presents the wait as a stall, the stall holds the fetch
registers, and the port goes on with an access as long as it is asked for the same address. So an access is answered when its
latency is over, unless a reset, a flush or a full buffer takes the request away. Whatever else the consumer, the queue or the
predictor do meanwhile has no effect on it, and nothing is delivered.
-/
namespace FetchStage

/-- The request of the next cycle need not be that of this one, even if the engine is stalled. -/
def CycleRecord.withdraws (r : CycleRecord) : Bool := r.clears || r.outputs.bufferFull

namespace Engine
variable {e : Engine} {i : Inputs}

theorem valid_of_stall (h : i.stall) : (e.outputs i).valid = false := by
  have hnone : e.delivered i = none := by simp [delivered, serves, h]
  unfold outputs
  cases i.reset with
  | true => rfl
  | false => simp [hnone]

/-- A stall holds the request, if nothing withdraws it. -/
theorem request_next_of_stall (h : i.stall) (hw : (e.record i).withdraws = false) : (e.next i).request = e.request := by
  obtain ⟨hclears, hfull⟩ := Bool.or_eq_false_iff.mp hw
  rw [record_clears, Bool.or_eq_false_iff] at hclears
  obtain ⟨hreset, hflush⟩ := hclears
  have hroom : e.buffer.isFull = false := (outputs_bufferFull i).symm.trans hfull
  have hstate : (e.next i).state = e.state := by simp [next, nextState, hreset, hflush, h, hroom]
  rw [request, hstate, request]

end Engine

namespace LatencyPort
variable {p q : LatencyPort} {a : Address} {n : Nat} {x : Response}

/-- An access for `a` has `n` cycles left: it is in flight, or a request for `a` would start it. -/
def Owes (p : LatencyPort) (a : Address) (n : Nat) : Prop :=
  p.inFlight = some ⟨a, n⟩ ∨
    (∀ f ∈ p.inFlight, f.address ≠ a) ∧ ∃ cycles timing, p.timing.access a = .ok (cycles, timing) ∧ n = max cycles 1

theorem Owes.current {f : InFlight} (h : p.Owes a n) (hc : p.current a = .ok (f, q)) : f = ⟨a, n⟩ := by
  rcases h with hflight | ⟨hstarts, cycles, timing, haccess, rfl⟩
  · rw [current_of_inFlight hflight] at hc
    cases hc
    rfl
  · rw [current_of_starts hstarts] at hc
    obtain ⟨_, _, haccess', rfl, _⟩ := start_eq_ok hc
    rw [haccess] at haccess'
    cases haccess'
    rfl

/-- The last cycle answers; each one before it leaves a cycle less. -/
theorem Owes.respond (h : p.Owes a n) (hn : 0 < n) (hr : p.respond ⟨a, true⟩ = .ok (x, q)) :
    x = (if n = 1 then ⟨p.image.read a, true⟩ else {}) ∧ (1 < n → q.Owes a (n - 1)) := by
  obtain ⟨⟨f, u⟩, hc, hr⟩ := bind_eq_ok.mp hr
  obtain rfl := h.current hc
  have himage := image_current hc
  simp only at hr
  cases hk : n - 1 with
  | zero =>
    have hlast : n = 1 := by omega
    rw [hk] at hr
    cases hr
    rw [if_pos hlast, himage]
    exact ⟨rfl, fun hmore => by omega⟩
  | succ k =>
    have hmore : n ≠ 1 := by omega
    rw [hk] at hr
    cases hr
    rw [if_neg hmore]
    exact ⟨rfl, fun _ => Or.inl rfl⟩

theorem Owes.respond_returns (h : p.Owes a n) (hn : p.accesses + 1 < Count.limit) : ∃ y, p.respond ⟨a, true⟩ = .ok y := by
  cases hr : p.respond ⟨a, true⟩ with
  | ok y => exact ⟨y, rfl⟩
  | error o =>
    obtain ⟨⟨_, hstarts⟩, hrange⟩ := (respond_refused_iff hn).mp ⟨o, hr⟩
    rcases h with hflight | ⟨_, cycles, timing, haccess, _⟩
    · exact absurd rfl (hstarts _ hflight)
    · obtain ⟨o, ho⟩ := Timing.access_refused_iff.mpr hrange
      rw [haccess] at ho
      cases ho

end LatencyPort

namespace Simulator
variable {s t u : Simulator LatencyPort} {r : CycleRecord} {a : Address} {n : Nat}

/-- What bounds the counts of a run from a fresh port, and the words that the port serves. -/
structure Accounted (image : Image) (s : Simulator LatencyPort) : Prop where
  counted : s.Counted
  accesses_le : s.port.accesses ≤ s.cycle
  image_eq : s.port.image = image

theorem accounted_withPort {c : Config} {image shown : Image} {timing : Timing} {truth : BranchTable}
    (h : withPort c { image, timing } shown truth = .ok s) : s.Accounted image := by
  have hcounted := counted_withPort h
  obtain ⟨_, _, h⟩ := bind_eq_ok.mp h
  cases h
  exact ⟨hcounted, Nat.le_refl 0, rfl⟩

theorem invariant_accounted (image : Image) : Invariant (Accounted image) (fun _ => True) (fun _ => True) where
  step h hs _ := ⟨h.counted.step hs, hs.accesses_le h.accesses_le, (serves_of_stepped h.image_eq hs).1⟩
  reset h := ⟨⟨h.counted.stats, h.counted.scoreboard⟩, h.accesses_le, h.image_eq⟩
  schedule := by
    intro s t due slot fact _ h hs
    rw [schedule_eq_ok hs]
    exact ⟨⟨h.counted.stats, h.counted.scoreboard⟩, h.accesses_le, h.image_eq⟩

/-- The engine asks for the word at `a`, and its access has `n` cycles left. -/
structure Waiting (a : Address) (n : Nat) (s : Simulator LatencyPort) : Prop where
  request : s.engine.request = ⟨a, true⟩
  owes : s.port.Owes a n
  pos : 0 < n

/-- A cycle with `n` cycles of the access for `a` left, itself included: the last one is answered with the word, and nothing is
delivered before it. -/
structure Awaits (image : Image) (a : Address) (n : Nat) (r : CycleRecord) : Prop where
  request : r.outputs.request = ⟨a, true⟩
  memory : r.inputs.memory = if n = 1 then ⟨image.read a, true⟩ else ⟨0, false⟩
  stall : 1 < n → r.inputs.stall
  valid : 1 < n → r.outputs.valid = false

theorem Waiting.awaits (h : s.Waiting a n) {x : Response} {port : LatencyPort}
    (hm : s.port.respond s.engine.request = .ok (x, port)) (fact : Resolution) :
    Awaits s.port.image a n (s.engine.record (s.inputs x fact)) := by
  have hrequest := h.request
  rw [hrequest] at hm
  have hx := (h.owes.respond h.pos hm).1
  have hstall : 1 < n → (s.inputs x fact).stall := by
    intro hn
    rw [if_neg (Nat.ne_of_gt hn)] at hx
    simp [inputs, hrequest, hx]
  exact {
    request := (Engine.outputs_request _).trans hrequest
    memory := hx
    stall := hstall
    valid := fun hn => Engine.valid_of_stall (hstall hn) }

theorem Waiting.awaits_of_stepped (h : s.Waiting a n) (hs : s.Stepped t r) : Awaits s.port.image a n r := by
  rw [hs.record_eq, hs.inputs]
  exact h.awaits hs.memory _

/-- A cycle of the wait that withdraws nothing leaves one cycle less. -/
theorem Waiting.step (h : s.Waiting a n) (hn : 1 < n) (hs : s.Stepped t r) (hw : r.withdraws = false) :
    t.Waiting a (n - 1) := by
  have hstall := (h.awaits_of_stepped hs).stall hn
  have hm : s.port.respond s.engine.request = .ok (r.inputs.memory, t.port) := hs.memory
  rw [h.request] at hm
  rw [hs.record_eq] at hw
  refine ⟨?_, (h.owes.respond h.pos hm).2 hn, by omega⟩
  rw [hs.engine]
  exact (Engine.request_next_of_stall hstall hw).trans h.request

/-- Resets and facts that are only called for change neither the request nor the port, so only the cycles count. -/
theorem Waiting.perform {actions : List Action} {rs : List CycleRecord} (h : s.Waiting a n)
    (hp : s.perform actions = .ok (t, rs)) (hn : rs.length < n) (hw : ∀ q ∈ rs, q.withdraws = false) :
    t.Waiting a (n - rs.length) ∧ t.cycle = s.cycle + rs.length := by
  induction actions generalizing s n rs with
  | nil =>
    cases hp
    exact ⟨h, rfl⟩
  | cons call rest ih =>
    obtain ⟨⟨v, now⟩, hact, hp⟩ := bind_eq_ok.mp hp
    obtain ⟨⟨w, later⟩, hrest, hp⟩ := bind_eq_ok.mp hp
    cases hp
    rw [List.length_append] at hn
    have hlater : ∀ q ∈ later, q.withdraws = false := fun q hq => hw q (List.mem_append_right _ hq)
    cases call with
    | step =>
      obtain ⟨⟨x, r⟩, hstep, hact⟩ := bind_eq_ok.mp hact
      cases hact
      have hs := stepped_of_step hstep
      rw [List.length_singleton] at hn
      have hnext := h.step (by omega) hs (hw r (List.mem_append_left _ (List.mem_singleton_self r)))
      obtain ⟨ht, hcycle⟩ := ih hnext hrest (by omega) hlater
      rw [List.length_append, List.length_singleton]
      refine ⟨?_, by rw [hcycle, hs.cycle_succ]; omega⟩
      rw [← Nat.sub_sub]
      exact ht
    | reset =>
      cases hact
      rw [List.length_nil, Nat.zero_add] at hn
      have hwaiting : s.reset.Waiting a n := ⟨h.request, h.owes, h.pos⟩
      have hcycle : s.reset.cycle = s.cycle := rfl
      rw [← hcycle]
      exact ih hwaiting hrest hn hlater
    | schedule due fact =>
      obtain ⟨⟨slot, x⟩, hsched, hact⟩ := bind_eq_ok.mp hact
      cases hact
      rw [List.length_nil, Nat.zero_add] at hn
      have hv : v = { s with resolver := v.resolver } := schedule_eq_ok hsched
      have hwaiting : v.Waiting a n := by
        rw [hv]
        exact ⟨h.request, h.owes, h.pos⟩
      have hcycle : v.cycle = s.cycle := by
        rw [hv]
        rfl
      rw [← hcycle]
      exact ih hwaiting hrest hn hlater

/-- The next cycle of the wait reaches the observers. Before the last one there is no branch that the queue could refuse. -/
theorem Waiting.clock_returns (h : s.Waiting a n) {image : Image} (hs : s.Accounted image)
    (hlt : s.cycle + 1 < Count.limit) :
    ∃ v r, s.clock = .ok (v, r) ∧ r.cycle = s.cycle ∧ Awaits image a n r ∧ (1 < n → ∃ w, s.step = .ok (w, r)) := by
  have hle := hs.accesses_le
  obtain ⟨⟨x, port⟩, hm⟩ : ∃ y, s.port.respond s.engine.request = .ok y := by
    rw [h.request]
    exact h.owes.respond_returns (by omega)
  have hawaits := h.awaits hm (s.resolver.take s.cycle).1
  rw [hs.image_eq] at hawaits
  obtain ⟨v, hclock⟩ := hs.counted.clock_returns hlt hm
  refine ⟨v, _, hclock, rfl, hawaits, ?_⟩
  intro hn
  have hnone : v.feedback (s.engine.record (s.inputs x (s.resolver.take s.cycle).1)) = .ok (v, none) := by
    rw [feedback, deliveredBranch, hawaits.valid hn]
    rfl
  exact ⟨v, bind_eq_ok.mpr ⟨_, hclock, bind_eq_ok.mpr ⟨_, hnone, rfl⟩⟩⟩

/-- In any run over a latency port, the access that a cycle starts is requested until the last cycle of its latency and answered
there with its word, unless an earlier one of these cycles withdraws the request. Until then nothing is delivered. As long as the
cycle count is in range, no cycle of the wait is refused and the last one gets as far as the observers. -/
theorem access_answered {c : Config} {image shown : Image} {start timing : Timing} {truth : BranchTable}
    {f : Simulator LatencyPort} {before actions : List Action} {us rs : List CycleRecord} {cycles : Nat}
    (hf : withPort c { image, timing := start } shown truth = .ok f) (hu : f.perform before = .ok (u, us))
    (hstarts : u.port.Starts u.engine.request)
    (haccess : u.port.timing.access u.engine.request.address = .ok (cycles, timing))
    (ht : u.perform actions = .ok (t, rs)) :
    (∀ k r, rs[k]? = some r → k < max cycles 1 → (∀ q ∈ rs.take k, q.withdraws = false) →
      r.cycle = u.cycle + k ∧ Awaits image u.engine.request.address (max cycles 1 - k) r) ∧
    (rs.length < max cycles 1 → (∀ q ∈ rs, q.withdraws = false) → u.cycle + rs.length + 1 < Count.limit →
      ∃ v r, t.clock = .ok (v, r) ∧ r.cycle = u.cycle + rs.length ∧
        Awaits image u.engine.request.address (max cycles 1 - rs.length) r ∧
        (rs.length + 1 < max cycles 1 → ∃ w, t.step = .ok (w, r))) := by
  have hinv := invariant_accounted image
  have haccounted := (hinv.perform hu (accounted_withPort hf) (by simp) (by simp)).1
  have hrequest : u.engine.request = ⟨u.engine.request.address, true⟩ := by rw [← hstarts.1]
  have hwaiting : u.Waiting u.engine.request.address (max cycles 1) :=
    ⟨hrequest, Or.inr ⟨hstarts.2, cycles, timing, haccess, rfl⟩, by omega⟩
  constructor
  · intro k r hk hlt hw
    obtain ⟨calls, v, w, hcalls, hstep⟩ := perform_cut ht hk
    have hlen : (rs.take k).length = k := List.length_take_of_le (Nat.le_of_lt (List.getElem?_eq_some_iff.mp hk).1)
    obtain ⟨hv, hcycle⟩ := hwaiting.perform hcalls (by rw [hlen]; exact hlt) hw
    rw [hlen] at hv hcycle
    have hs := stepped_of_step hstep
    have hawaits := hv.awaits_of_stepped hs
    rw [(hinv.perform hcalls haccounted (by simp) (by simp)).1.image_eq] at hawaits
    exact ⟨hs.cycle.trans hcycle, hawaits⟩
  · intro hlt hw hlimit
    obtain ⟨hv, hcycle⟩ := hwaiting.perform ht hlt hw
    have hnow := (hinv.perform ht haccounted (by simp) (by simp)).1
    obtain ⟨v, r, hclock, hr, hawaits, hstep⟩ := hv.clock_returns hnow (by rw [hcycle]; exact hlimit)
    exact ⟨v, r, hclock, hr.trans hcycle, hawaits, fun hn => hstep (by omega)⟩

/-- An access of five cycles from a closed row. The consumer stalls in every other cycle, and a branch not taken resolves. -/
theorem access_answered_overlapped :
    ∃ f u us t rs timing, ofProgram { memory := { controller := .dram, activate := 3 }, consumer := ⟨1, 2, 1⟩ }
        #[0x13, 0x93] .empty = .ok f ∧
      f.perform [.schedule 3 ⟨true, false, 0x40, 0x80⟩, .step] = .ok (u, us) ∧ u.port.Starts u.engine.request ∧
      u.port.timing.access u.engine.request.address = .ok (5, timing) ∧
      u.perform (List.replicate 5 .step) = .ok (t, rs) ∧ (∀ q ∈ rs.take 4, q.withdraws = false) ∧
      (∃ q ∈ rs.take 4, q.inputs.resolution.resolved) ∧
      ∃ r, rs[4]? = some r ∧ r.cycle = 5 ∧ r.outputs.request = ⟨4, true⟩ ∧ r.inputs.memory = ⟨0x93, true⟩ := by
  have htrial : (trial { memory := { controller := .dram, activate := 3 }, consumer := ⟨1, 2, 1⟩ } #[0x13, 0x93] .empty
      [.schedule 3 ⟨true, false, 0x40, 0x80⟩, .step]).any fun x =>
        x.1.cycle == 1 && x.1.engine.request == ⟨4, true⟩ && x.1.port.inFlight == none &&
          ((x.1.port.timing.access x.1.engine.request.address).toOption.any fun y => y.1 == 5) &&
          (x.1.perform (List.replicate 5 .step)).toOption.any fun y =>
            y.2.length == 5 && (y.2.take 4).all (fun q => q.withdraws == false) &&
              (y.2.take 4).any (·.inputs.resolution.resolved) := by
    decide +kernel
  obtain ⟨f, u, us, hf, hu, htest⟩ := exists_of_trial htrial
  simp only [Bool.and_eq_true, beq_iff_eq] at htest
  obtain ⟨⟨⟨⟨hcycle, hrequest⟩, hidle⟩, haccess⟩, hrun⟩ := htest
  obtain ⟨⟨cycles, timing⟩, haccess, hfive⟩ := exists_of_any haccess
  obtain ⟨⟨t, rs⟩, ht, hrun⟩ := exists_of_any hrun
  simp only [Bool.and_eq_true, beq_iff_eq, List.all_eq_true, List.any_eq_true] at hfive hrun
  obtain ⟨⟨hlen, hheld⟩, hfact⟩ := hrun
  subst hfive
  have hstarts : u.port.Starts u.engine.request := ⟨by rw [hrequest], by simp [hidle]⟩
  have hlast : rs[4]? = some rs[4] := List.getElem?_eq_getElem _
  obtain ⟨hat, hawaits⟩ := (access_answered hf hu hstarts haccess ht).1 4 rs[4] hlast (by decide) hheld
  rw [hcycle] at hat
  rw [hrequest] at hawaits
  exact ⟨f, u, us, t, rs, timing, hf, hu, hstarts, haccess, ht, hheld, hfact, rs[4], hlast, hat, hawaits.request,
    hawaits.memory⟩

end Simulator

end FetchStage
