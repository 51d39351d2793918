import FetchStage.Proofs.Memory.Latency
import Mathlib.Data.List.DropRight
import Mathlib.Data.List.Induction

/-! # Accesses one after the other

A port is told apart by its calls and answers alone. A call that asserts a request starts an access, unless the call before it
asked for the same word and was not answered; then it goes on waiting. The access is answered on the last of the cycles that the
timing asked for when it started, and for a bank these depend on the row of the access started before, whether or not that one
was answered.
-/
namespace FetchStage

/-- A call on a memory port, with its answer. -/
structure Exchange where
  request : Request
  answer : Response
  deriving DecidableEq

/-- The call asks for the word at `a` and is left waiting. -/
def Exchange.waits (a : Address) (x : Exchange) : Bool := x.request == ⟨a, true⟩ && !x.answer.ready

theorem Exchange.waits_iff {a : Address} {x : Exchange} :
    x.waits a ↔ x.request = ⟨a, true⟩ ∧ x.answer.ready = false := by
  simp [waits]

section History
variable (h : List Exchange) (a : Address)

/-- Calls at the end of the history that have waited for `a`. -/
def waited : Nat := (h.rtakeWhile (Exchange.waits a)).length

/-- The history before the access for `a` that is waiting at its end, or all of it if there is none. -/
def origin : List Exchange := h.rdropWhile (Exchange.waits a)

/-- Addresses of the accesses that the calls start, where `before` is the call that precedes them. -/
def startedAfter (before : Option Exchange) : List Exchange → List Address
  | [] => []
  | x :: rest =>
    let starts := x.request.readEnable && !before.any (Exchange.waits x.request.address)
    (if starts then [x.request.address] else []) ++ startedAfter (some x) rest

/-- Addresses of the accesses started, abandoned ones included. -/
def started : List Address := startedAfter none h

variable {h a}

theorem waited_concat (x : Exchange) : waited (h ++ [x]) a = if x.waits a then waited h a + 1 else 0 := by
  unfold waited
  rw [List.rtakeWhile_concat]
  split
  · rw [List.length_append, List.length_singleton]
  · rfl

theorem origin_concat (x : Exchange) (hx : x.waits a) : origin (h ++ [x]) a = origin h a :=
  List.rdropWhile_concat_pos _ _ _ hx

theorem waited_eq_zero_iff : waited h a = 0 ↔ ¬h.getLast?.any (Exchange.waits a) := by
  induction h using List.reverseRecOn with
  | nil => simp [waited]
  | append_singleton h x _ =>
    rw [waited_concat, List.getLast?_concat]
    by_cases hx : x.waits a <;> simp [hx]

theorem origin_of_waited_eq_zero (hw : waited h a = 0) : origin h a = h := by
  have hsplit : origin h a ++ h.rtakeWhile (Exchange.waits a) = h := List.rdropWhile_append_rtakeWhile
  rw [List.eq_nil_of_length_eq_zero hw, List.append_nil] at hsplit
  exact hsplit

theorem startedAfter_concat (before : Option Exchange) (x : Exchange) :
    startedAfter before (h ++ [x]) = startedAfter before h ++
      if x.request.readEnable && !(h.getLast?.or before).any (Exchange.waits x.request.address) then [x.request.address]
      else [] := by
  induction h generalizing before with
  | nil => simp [startedAfter]
  | cons y h ih =>
    have hlast : (y :: h).getLast?.or before = h.getLast?.or (some y) := by
      cases h with
      | nil => rfl
      | cons z h => rw [List.getLast?_cons_cons, List.getLast?_cons, Option.some_or, Option.some_or]
    rw [List.cons_append, startedAfter, ih, startedAfter, hlast, List.append_assoc]

theorem started_concat (x : Exchange) :
    started (h ++ [x]) =
      if x.request.readEnable ∧ waited h x.request.address = 0 then started h ++ [x.request.address] else started h := by
  rw [started, startedAfter_concat, Option.or_none]
  simp only [waited_eq_zero_iff, Bool.and_eq_true, Bool.not_eq_true', Bool.not_eq_true]
  split <;> simp [started]

end History

/-- Cycles that an access of the bank takes after the accesses `before`, at least one. -/
def Bank.lasts (b : Bank) (before : List Address) (a : Address) : Nat :=
  max 1 (b.columnAccess +
    match before.getLast? with
    | none => b.activate
    | some last => if last.row = a.row then 0 else b.precharge + b.activate)

theorem Bank.cost_after (b : Bank) (before : List Address) (a : Address) :
    max (Bank.cost { b with openRow := before.getLast?.map Address.row } a.row) 1 = b.lasts before a := by
  unfold cost lasts
  cases hlast : before.getLast? with
  | none =>
    simp only [Option.map_none]
    omega
  | some last =>
    simp only [Option.map_some]
    split <;> omega

namespace Timing
variable {t : Timing} {before : List Address} {a : Address}

def lasts : Timing → List Address → Address → Nat
  | .fixed latency, _, _ => max latency 1
  | .rowBuffer bank, before, a => bank.lasts before a

/-- The timing after accesses to the addresses `before`: the last row is open. -/
def after (before : List Address) : Timing → Timing
  | .fixed latency => .fixed latency
  | .rowBuffer bank => .rowBuffer { bank with openRow := before.getLast?.map Address.row }

/-- Every latency is in range. -/
def Fits : Timing → Prop
  | .fixed _ => True
  | .rowBuffer bank => bank.precharge + bank.activate + bank.columnAccess < Count.limit

theorem Fits.inRange (h : t.Fits) (before : List Address) (a : Address) : ¬(t.after before).OutOfRange a := by
  cases t with
  | fixed latency => exact id
  | rowBuffer bank =>
    have hcost := Bank.cost_le { bank with openRow := before.getLast?.map Address.row } a.row
    exact Nat.not_le_of_lt (Nat.lt_of_le_of_lt hcost h)

theorem access_after {cycles : Nat} {u : Timing} (h : (t.after before).access a = .ok (cycles, u)) :
    max cycles 1 = t.lasts before a ∧ u = t.after (before ++ [a]) := by
  cases t with
  | fixed latency =>
    cases h
    exact ⟨rfl, rfl⟩
  | rowBuffer bank =>
    obtain ⟨⟨n, b⟩, hb, h⟩ := bind_eq_ok.mp h
    cases h
    rw [Bank.access_eq] at hb
    split at hb
    · cases hb
      exact ⟨bank.cost_after before a, by simp [after]⟩
    · cases hb

end Timing

namespace LatencyPort
variable {t : Timing} {image : Image} {h : List Exchange} {p q : LatencyPort} {r : Request} {x : Response}

/-- The exchange that follows the history `before` goes by the access that it starts or goes on with. -/
structure Answers (t : Timing) (image : Image) (before : List Exchange) (x : Exchange) : Prop where
  ready : x.answer.ready ↔ x.request.readEnable ∧
    waited before x.request.address + 1 = t.lasts (started (origin before x.request.address)) x.request.address
  answer : x.answer = if x.answer.ready then ⟨image.read x.request.address, true⟩ else {}

/-- The port after a history. The timing is that after the accesses started, and what is in flight is the access that the last
call has been left waiting for, with as many cycles left as it has not waited yet. -/
structure Follows (t : Timing) (image : Image) (h : List Exchange) (p : LatencyPort) : Prop where
  image_eq : p.image = image
  timing : p.timing = t.after (started h)
  accesses : p.accesses = (started h).length
  idle : (∀ a, waited h a = 0) → p.inFlight = none
  waiting : ∀ a, 0 < waited h a →
    ∃ n, 0 < n ∧ n + waited h a = t.lasts (started (origin h a)) a ∧ p.inFlight = some ⟨a, n⟩
  answers : ∀ before x after, h = before ++ x :: after → Answers t image before x

theorem Follows.starts_iff (hp : Follows t image h p) : p.Starts r ↔ r.readEnable ∧ waited h r.address = 0 := by
  unfold Starts
  refine and_congr_right fun _ => ?_
  constructor
  · intro hne
    by_contra hw
    obtain ⟨n, _, _, hf⟩ := hp.waiting r.address (Nat.pos_of_ne_zero hw)
    exact hne _ hf rfl
  · intro hw f hf hfr
    by_cases hidle : ∀ a, waited h a = 0
    · rw [hp.idle hidle] at hf
      cases hf
    · obtain ⟨a, ha⟩ := not_forall.mp hidle
      obtain ⟨n, _, _, hn⟩ := hp.waiting a (Nat.pos_of_ne_zero ha)
      obtain rfl : _ = f := Option.some.inj (hn.symm.trans hf)
      have haddress : a = r.address := hfr
      rw [haddress] at ha
      exact ha hw

/-- Once a request is asserted, an access for it is under way, and has been for `waited h a` cycles. -/
theorem Follows.current {a : Address} {f : InFlight} (hp : Follows t image h p) (hc : p.current a = .ok (f, q)) :
    (∃ n, f = ⟨a, n⟩ ∧ 0 < n ∧ n + waited h a = t.lasts (started (origin h a)) a) ∧ q.image = image ∧
    q.timing = t.after (if waited h a = 0 then started h ++ [a] else started h) ∧
    q.accesses = (if waited h a = 0 then started h ++ [a] else started h).length := by
  by_cases hw : waited h a = 0
  · have hnone := (hp.starts_iff (r := ⟨a, true⟩)).mpr ⟨rfl, hw⟩
    rw [current_of_starts hnone.2] at hc
    obtain ⟨cycles, timing, haccess, rfl, rfl⟩ := start_eq_ok hc
    rw [hp.timing] at haccess
    obtain ⟨hlasts, rfl⟩ := Timing.access_after haccess
    rw [if_pos hw, origin_of_waited_eq_zero hw, hw, List.length_append, ← hp.accesses]
    exact ⟨⟨_, rfl, Nat.lt_of_lt_of_le Nat.zero_lt_one (Nat.le_max_right _ _), hlasts⟩, hp.image_eq, rfl, rfl⟩
  · obtain ⟨n, hn, hleft, hf⟩ := hp.waiting a (Nat.pos_of_ne_zero hw)
    rw [current_of_inFlight hf] at hc
    cases hc
    rw [if_neg hw]
    exact ⟨⟨n, rfl, hn, hleft⟩, hp.image_eq, hp.timing, hp.accesses⟩

theorem Follows.answers_concat {y : Exchange} (hp : Follows t image h p) (hy : Answers t image h y) :
    ∀ before x after, h ++ [y] = before ++ x :: after → Answers t image before x := by
  intro before x after hcut
  rcases List.eq_nil_or_concat after with rfl | ⟨rest, last, rfl⟩
  · obtain ⟨rfl, hlast⟩ := List.append_inj' hcut rfl
    exact List.singleton_inj.mp hlast ▸ hy
  · rw [List.concat_eq_append, ← List.cons_append, ← List.append_assoc] at hcut
    exact hp.answers before x rest (List.append_inj' hcut rfl).1

/-- A call that is not left waiting leaves nothing in flight. -/
theorem Follows.concat_of_quiet {y : Exchange} (hp : Follows t image h p) (hy : Answers t image h y)
    (hquiet : ∀ a, y.waits a = false) (himage : q.image = image) (htiming : q.timing = t.after (started (h ++ [y])))
    (haccesses : q.accesses = (started (h ++ [y])).length) (hflight : q.inFlight = none) :
    Follows t image (h ++ [y]) q := by
  have hwaited : ∀ a, waited (h ++ [y]) a = 0 := by
    intro a
    rw [waited_concat, hquiet a]
    rfl
  refine ⟨himage, htiming, haccesses, fun _ => hflight, ?_, hp.answers_concat hy⟩
  intro a ha
  rw [hwaited] at ha
  exact absurd ha (Nat.lt_irrefl 0)

theorem Follows.respond (hp : Follows t image h p) (hr : p.respond r = .ok (x, q)) :
    Follows t image (h ++ [⟨r, x⟩]) q := by
  have hstarted := started_concat (h := h) ⟨r, x⟩
  unfold LatencyPort.respond at hr
  cases hen : r.readEnable with
  | false =>
    simp only [hen, Bool.false_eq_true, if_false] at hr
    simp only [hen, Bool.false_eq_true, false_and, if_false] at hstarted
    cases hr
    have hquiet : ∀ a, (⟨r, {}⟩ : Exchange).waits a = false := by
      intro a
      rw [← Bool.not_eq_true, Exchange.waits_iff]
      rintro ⟨rfl, _⟩
      cases hen
    refine hp.concat_of_quiet ⟨by simp [hen], rfl⟩ hquiet hp.image_eq ?_ ?_ rfl
    · rw [hstarted]
      exact hp.timing
    · rw [hstarted]
      exact hp.accesses
  | true =>
    simp only [hen, if_true] at hr
    simp only [hen, true_and] at hstarted
    obtain ⟨⟨f, u⟩, hc, hr⟩ := bind_eq_ok.mp hr
    obtain ⟨⟨n, rfl, hn, hleft⟩, himage, htiming, haccesses⟩ := hp.current hc
    rw [← hstarted] at htiming haccesses
    simp only at hr
    cases hk : n - 1 with
    | zero =>
      rw [hk] at hr
      cases hr
      have hdone : waited h r.address + 1 = t.lasts (started (origin h r.address)) r.address := by omega
      refine hp.concat_of_quiet ⟨by simp [hen, hdone], by simp [himage]⟩ ?_ himage htiming haccesses rfl
      intro a
      simp [Exchange.waits]
    | succ k =>
      rw [hk] at hr
      cases hr
      have hmore : ¬waited h r.address + 1 = t.lasts (started (origin h r.address)) r.address := by omega
      have hself : (⟨r, {}⟩ : Exchange).waits r.address := Exchange.waits_iff.mpr ⟨by rw [← hen], rfl⟩
      refine ⟨himage, htiming, haccesses, ?_, ?_, hp.answers_concat ⟨by simp [hmore], rfl⟩⟩
      · intro hidle
        have hzero := hidle r.address
        rw [waited_concat, if_pos hself] at hzero
        cases hzero
      · intro a ha
        rw [waited_concat] at ha
        by_cases hwaits : (⟨r, {}⟩ : Exchange).waits a
        · obtain ⟨hra, _⟩ := Exchange.waits_iff.mp hwaits
          have haddress : r.address = a := congrArg Request.address hra
          subst haddress
          refine ⟨k + 1, Nat.succ_pos k, ?_, rfl⟩
          rw [waited_concat, if_pos hself, origin_concat _ hself]
          omega
        · rw [if_neg hwaits] at ha
          exact absurd ha (Nat.lt_irrefl 0)

/-- The next call is refused only if it starts an access that the count has no room for. -/
theorem Follows.respond_returns_iff (hp : Follows t image h p) (ht : t.Fits) :
    (∃ y, p.respond r = .ok y) ↔ (r.readEnable → waited h r.address = 0 → (started h).length + 1 < Count.limit) := by
  have hstarts := hp.starts_iff (r := r)
  rw [← hp.accesses]
  by_cases hn : p.accesses + 1 < Count.limit
  · have hrange : ¬p.timing.OutOfRange r.address := hp.timing ▸ ht.inRange (started h) r.address
    exact ⟨fun _ _ _ => hn, fun _ => respond_returns hn hrange⟩
  · have hrefused := respond_refused_of_full (r := r) hn
    cases hr : p.respond r with
    | error o =>
      obtain ⟨hen, hw⟩ := hstarts.mp (hrefused.mp ⟨o, hr⟩)
      refine ⟨?_, fun hroom => absurd (hroom hen hw) hn⟩
      rintro ⟨y, hy⟩
      cases hy
    | ok y =>
      refine ⟨fun _ hen hw => ?_, fun _ => ⟨y, rfl⟩⟩
      obtain ⟨o, ho⟩ := hrefused.mpr (hstarts.mpr ⟨hen, hw⟩)
      rw [hr] at ho
      cases ho

theorem Follows.remaining_pos {a : Address} {f : InFlight} (hp : Follows t image h p) (hc : p.current a = .ok (f, q)) :
    0 < f.remaining := by
  obtain ⟨⟨n, rfl, hn, _⟩, _⟩ := hp.current hc
  exact hn

/-- The port is busy while its last call is left waiting. -/
theorem Follows.busy_iff (hp : Follows t image h p) :
    p.busy ↔ ∃ x, h.getLast? = some x ∧ x.request.readEnable ∧ x.answer.ready = false := by
  unfold busy
  constructor
  · intro hbusy
    obtain ⟨f, hf⟩ := Option.isSome_iff_exists.mp hbusy
    by_contra hnone
    have hidle : ∀ a, waited h a = 0 := by
      intro a
      rw [waited_eq_zero_iff]
      intro hany
      obtain ⟨x, hx, hwaits⟩ := (Option.any_eq_true _ _).mp hany
      obtain ⟨hrequest, hanswer⟩ := Exchange.waits_iff.mp hwaits
      exact hnone ⟨x, hx, by rw [hrequest], hanswer⟩
    rw [hp.idle hidle] at hf
    cases hf
  · rintro ⟨x, hx, hen, hanswer⟩
    have hwaits : x.waits x.request.address := Exchange.waits_iff.mpr ⟨by rw [← hen], hanswer⟩
    have hpos : 0 < waited h x.request.address := by
      rw [Nat.pos_iff_ne_zero]
      intro hzero
      exact waited_eq_zero_iff.mp hzero (by rw [hx]; exact hwaits)
    obtain ⟨n, _, _, hf⟩ := hp.waiting _ hpos
    rw [hf]
    rfl

/-- Calls one after the other. -/
def serve (p : LatencyPort) : List Request → Except Overflow (List Exchange × LatencyPort)
  | [] => .ok ([], p)
  | r :: rest => do
    let (x, p) ← p.respond r
    let (later, p) ← p.serve rest
    return (⟨r, x⟩ :: later, p)

theorem serve_cons {rs : List Request} {xs : List Exchange} :
    p.serve (r :: rs) = .ok (xs, q) ↔
      ∃ x u later, p.respond r = .ok (x, u) ∧ u.serve rs = .ok (later, q) ∧ xs = ⟨r, x⟩ :: later := by
  rw [serve, bind_eq_ok]
  constructor
  · rintro ⟨⟨x, u⟩, hr, hrest⟩
    obtain ⟨⟨later, v⟩, hlater, hrest⟩ := bind_eq_ok.mp hrest
    cases hrest
    exact ⟨x, u, later, hr, hlater, rfl⟩
  · rintro ⟨x, u, later, hr, hlater, rfl⟩
    exact ⟨(x, u), hr, bind_eq_ok.mpr ⟨(later, q), hlater, rfl⟩⟩

theorem Follows.serve {rs : List Request} {xs : List Exchange} (hp : Follows t image h p)
    (hs : p.serve rs = .ok (xs, q)) : Follows t image (h ++ xs) q := by
  induction rs generalizing p h xs with
  | nil =>
    cases hs
    rw [List.append_nil]
    exact hp
  | cons r rs ih =>
    obtain ⟨x, u, later, hr, hlater, rfl⟩ := serve_cons.mp hs
    rw [List.append_cons]
    exact ih (hp.respond hr) hlater

end LatencyPort

end FetchStage
