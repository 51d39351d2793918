import FetchStage.Proofs.Memory.Accesses
import Mathlib.Algebra.GroupWithZero.Nat
import Mathlib.Data.List.SplitBy

/-! # Blocks of requests

With a fixed latency the accesses can be read off the requests. A request that is held makes up a block, and the block is cut
into accesses of that many cycles, the last of which may be abandoned. So a call is answered when the block up to it is a whole
number of accesses.
-/
namespace FetchStage

section Requests
variable {r : Request} {rs : List Request}

/-- Requests at the end of the list that are all `r`. -/
def held (r : Request) (rs : List Request) : Nat := (rs.rtakeWhile (· == r)).length

end Requests

section Histories
variable {m : Nat} {h : List Exchange}

/-- Every access lasts `m` cycles. -/
def Uniform (m : Nat) (h : List Exchange) : Prop :=
  ∀ before x after, h = before ++ x :: after →
    (x.answer.ready ↔ x.request.readEnable ∧ waited before x.request.address + 1 = m)

theorem Uniform.init {x : Exchange} (hu : Uniform m (h ++ [x])) : Uniform m h := by
  rintro before y after rfl
  exact hu before y (after ++ [x]) (by simp)

end Histories

namespace LatencyPort
variable {image : Image} {h : List Exchange} {q : LatencyPort}

/-- What a sequence of calls shows with any timing, and when the next call is refused. -/
structure Shows (image : Image) (h : List Exchange) (q : LatencyPort) : Prop where
  answer : ∀ x ∈ h, x.answer = if x.answer.ready then ⟨image.read x.request.address, true⟩ else ⟨0, false⟩
  busy : q.busy ↔ ∃ x, h.getLast? = some x ∧ x.request.readEnable ∧ x.answer.ready = false
  remaining : ∀ a f u, q.current a = .ok (f, u) → 0 < f.remaining
  returns : ∀ r, (∃ y, q.respond r = .ok y) ↔
    (r.readEnable → waited h r.address = 0 → q.accesses + 1 < Count.limit)

theorem Follows.shows {t : Timing} (hq : Follows t image h q) (ht : t.Fits) : Shows image h q where
  answer := by
    intro x hx
    obtain ⟨before, after, hcut⟩ := List.append_of_mem hx
    exact (hq.answers before x after hcut).answer
  busy := hq.busy_iff
  remaining _ _ _ hc := hq.remaining_pos hc
  returns r := by
    rw [hq.accesses]
    exact hq.respond_returns_iff ht

end LatencyPort

end FetchStage
