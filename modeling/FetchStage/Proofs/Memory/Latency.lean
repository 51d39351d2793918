import FetchStage.Config.Basic
import FetchStage.Proofs.Memory.Port

/-! # Latencies in range

A bank adds up to three settings to find the latency of an access, and the sum may leave the range of counts. This is the only
reason for which a port refuses a request, as long as it can count its accesses. An access in flight always has a cycle left to
wait, so counting it down never goes below zero.
-/
namespace FetchStage

namespace Bank

/-- Latency of an access to a row, in range or not. -/
def cost (b : Bank) (row : Nat) : Nat :=
  match b.openRow with
  | some r => if r = row then b.columnAccess else b.precharge + b.activate + b.columnAccess
  | none => b.activate + b.columnAccess

theorem cost_le (b : Bank) (row : Nat) : b.cost row ≤ b.precharge + b.activate + b.columnAccess := by
  unfold cost
  split
  · split <;> omega
  · omega

/-- The two sums of a row change are in range if the whole is. -/
theorem access_eq (b : Bank) (a : Address) :
    b.access a =
      if b.cost a.row < Count.limit then .ok (b.cost a.row, { b with openRow := some a.row }) else .error .add := by
  have hadd : ∀ m : Nat, (Count.add m b.columnAccess >>= fun cycles => pure (cycles, { b with openRow := some a.row })) =
      if m + b.columnAccess < Count.limit then .ok (m + b.columnAccess, { b with openRow := some a.row })
      else (.error .add : Except Overflow (Nat × Bank)) := by
    intro m
    unfold Count.add
    split <;> rfl
  unfold access overhead cost
  cases b.openRow with
  | none => exact hadd b.activate
  | some r =>
    by_cases hr : r = a.row
    · simp only [if_pos hr]
      exact (hadd 0).trans (by rw [Nat.zero_add])
    · simp only [if_neg hr]
      by_cases hsum : b.precharge + b.activate < Count.limit
      · rw [show Count.add b.precharge b.activate = .ok (b.precharge + b.activate) from if_pos hsum]
        exact hadd _
      · rw [show Count.add b.precharge b.activate = .error .add from if_neg hsum, if_neg (by omega)]
        rfl

end Bank

namespace Timing
variable {t u : Timing} {a : Address}

/-- A new access would have a latency out of range. -/
def OutOfRange (a : Address) : Timing → Prop
  | .fixed _ => False
  | .rowBuffer bank => Count.limit ≤ bank.cost a.row

/-- The timing before any access. -/
def closed : Timing → Timing
  | .fixed latency => .fixed latency
  | .rowBuffer bank => .rowBuffer { bank with openRow := none }

theorem access_refused_iff : (∃ o, t.access a = .error o) ↔ t.OutOfRange a := by
  cases t with
  | fixed latency =>
    constructor
    · rintro ⟨_, ho⟩
      cases ho
    · exact False.elim
  | rowBuffer bank =>
    simp only [access, Bank.access_eq, OutOfRange]
    split
    · rename_i hlt
      constructor
      · rintro ⟨_, ho⟩
        cases ho
      · intro hle
        omega
    · rename_i hlt
      exact ⟨fun _ => by omega, fun _ => ⟨.add, rfl⟩⟩

theorem closed_access {cycles : Nat} (h : t.access a = .ok (cycles, u)) : u.closed = t.closed := by
  cases t with
  | fixed latency =>
    cases h
    rfl
  | rowBuffer bank =>
    obtain ⟨⟨n, b⟩, hb, h⟩ := bind_eq_ok.mp h
    cases h
    rw [Bank.access_eq] at hb
    split at hb
    · cases hb
      rfl
    · cases hb

end Timing

/-- The longest latency that the settings allow is in range. -/
def MemoryConfig.Fits (m : MemoryConfig) : Prop :=
  m.controller = .dram → m.precharge + m.activate + m.columnAccess < Count.limit

theorem MemoryConfig.closed_timing (m : MemoryConfig) : m.timing.closed = m.timing := by
  unfold timing
  cases m.controller <;> rfl

theorem MemoryConfig.Fits.inRange {m : MemoryConfig} (h : m.Fits) {t : Timing} (ht : t.closed = m.timing) (a : Address) :
    ¬t.OutOfRange a := by
  cases t with
  | fixed latency => exact id
  | rowBuffer bank =>
    unfold MemoryConfig.timing at ht
    cases hc : m.controller with
    | simple =>
      rw [hc] at ht
      cases ht
    | dram =>
      rw [hc] at ht
      have hfits := h hc
      have hcost := bank.cost_le a.row
      obtain ⟨hcolumn, hactivate, hprecharge⟩ : bank.columnAccess = m.columnAccess ∧ bank.activate = m.activate ∧
          bank.precharge = m.precharge := by
        simpa [Timing.closed] using ht
      rw [hcolumn, hactivate, hprecharge] at hcost
      exact Nat.not_le_of_lt (Nat.lt_of_le_of_lt hcost hfits)

namespace LatencyPort
variable {p q : LatencyPort} {r : Request} {a : Address} {f : InFlight}

/-- The request is asserted and no access for it is in flight. -/
def Starts (p : LatencyPort) (r : Request) : Prop := r.readEnable ∧ ∀ f ∈ p.inFlight, f.address ≠ r.address

theorem start_refused_iff (hn : p.accesses + 1 < Count.limit) :
    (∃ o, p.start a = .error o) ↔ p.timing.OutOfRange a := by
  rw [← Timing.access_refused_iff]
  constructor
  · rintro ⟨o, ho⟩
    cases haccess : p.timing.access a with
    | error e => exact ⟨e, rfl⟩
    | ok x =>
      rw [start_of_access hn haccess] at ho
      cases ho
  · rintro ⟨o, ho⟩
    exact ⟨o, bind_eq_error.mpr (Or.inr ⟨_, Count.succ_of_lt hn, bind_eq_error.mpr (Or.inl ho)⟩)⟩

theorem current_refused_iff (hn : p.accesses + 1 < Count.limit) :
    (∃ o, p.current a = .error o) ↔ (∀ f ∈ p.inFlight, f.address ≠ a) ∧ p.timing.OutOfRange a := by
  unfold current
  cases hf : p.inFlight with
  | none =>
    rw [start_refused_iff hn]
    simp
  | some g =>
    by_cases hg : g.address = a
    · simp [hg]
    · simp only [if_neg hg, start_refused_iff hn]
      simp [hg]

/-- A port that can count one more access refuses a request only for the latency of the access that it starts. -/
theorem respond_refused_iff (hn : p.accesses + 1 < Count.limit) :
    (∃ o, p.respond r = .error o) ↔ p.Starts r ∧ p.timing.OutOfRange r.address := by
  unfold respond Starts
  cases r.readEnable with
  | false => simp
  | true =>
    rw [and_assoc, ← current_refused_iff hn]
    cases hc : p.current r.address with
    | error e => simp [bind, Except.bind]
    | ok x =>
      simp only [bind, Except.bind, if_true]
      split <;> simp [pure, Except.pure]

theorem respond_returns (hn : p.accesses + 1 < Count.limit) (h : ¬p.timing.OutOfRange r.address) :
    ∃ x, p.respond r = .ok x := by
  cases hr : p.respond r with
  | error o => exact absurd ((respond_refused_iff hn).mp ⟨o, hr⟩).2 h
  | ok x => exact ⟨x, rfl⟩

/-- A port that cannot count one more access refuses the requests that start one. -/
theorem respond_refused_of_full (hn : ¬p.accesses + 1 < Count.limit) : (∃ o, p.respond r = .error o) ↔ p.Starts r := by
  constructor
  · rintro ⟨o, ho⟩
    unfold respond at ho
    cases hen : r.readEnable with
    | false =>
      simp only [hen, Bool.false_eq_true, if_false] at ho
      cases ho
    | true =>
      refine ⟨hen, ?_⟩
      intro f hf hfr
      have hc := current_of_inFlight hf
      rw [hfr] at hc
      simp only [hen, if_true, hc, bind, Except.bind] at ho
      split at ho <;> cases ho
  · rintro ⟨hen, hnone⟩
    have hfull : Count.succ p.accesses = .error .add := if_neg hn
    have hstart : p.start r.address = .error .add := bind_eq_error.mpr (Or.inl hfull)
    refine ⟨.add, ?_⟩
    rw [respond, if_pos hen, current_of_starts hnone]
    exact bind_eq_error.mpr (Or.inl hstart)

/-- The access in flight has a cycle left to wait. -/
def Waits (p : LatencyPort) : Prop := ∀ f ∈ p.inFlight, 0 < f.remaining

theorem Waits.current (h : p.Waits) (hc : p.current a = .ok (f, q)) : 0 < f.remaining := by
  obtain ⟨hf, _⟩ | hs := current_cases hc
  · exact h f hf
  · obtain ⟨cycles, _, _, rfl, _⟩ := start_eq_ok hs
    exact Nat.lt_of_lt_of_le Nat.zero_lt_one (Nat.le_max_right cycles 1)

theorem waits_respond {x : Response} (h : p.respond r = .ok (x, q)) : q.Waits := by
  unfold respond at h
  split at h
  · obtain ⟨⟨access, u⟩, _, h⟩ := bind_eq_ok.mp h
    simp only at h
    split at h
    · cases h
      simp [Waits]
    · cases h
      simp [Waits]
  · cases h
    simp [Waits]

theorem closed_respond {x : Response} (h : p.respond r = .ok (x, q)) : q.timing.closed = p.timing.closed := by
  obtain ⟨hkept, _⟩ | ⟨_, haccess, _⟩ := timing_respond h
  · rw [hkept]
  · exact Timing.closed_access haccess

end LatencyPort

end FetchStage
