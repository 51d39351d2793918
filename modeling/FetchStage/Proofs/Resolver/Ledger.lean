import FetchStage.Proofs.Resolver.Slots

/-! # Calls on the resolution queue

Facts are scheduled, taken and cleared in any order, for cycles that may collide, lie in the past or end the range. Every call
is described by the slots before and after it. What has been stored since the queue was last cleared has either been taken or
is still pending, each fact as often as it was stored.
-/
namespace FetchStage.Resolver

inductive Call where
  | schedule (due : Nat) (fact : Resolution)
  | scheduleAfter (cycle : Nat) (fact : Resolution)
  | take (cycle : Nat)
  | clear
  deriving DecidableEq

def Call.InRange : Call → Prop
  | .schedule n _ | .scheduleAfter n _ | .take n => n < Count.limit
  | .clear => True

/-- What a call has returned, and which facts it has added or removed. -/
inductive Event where
  | stored (slot : Nat) (fact : Resolution)
  | taken (cycle : Nat) (answer : Resolution) (gone : List (Nat × Resolution))
  | cleared
  deriving DecidableEq

def call (r : Resolver) : Call → Except Overflow (Event × Resolver)
  | .schedule due fact => do
    let (slot, t) ← r.schedule due fact
    return (.stored slot fact, t)
  | .scheduleAfter cycle fact => do
    let (slot, t) ← r.scheduleAfter cycle fact
    return (.stored slot fact, t)
  | .take cycle =>
    let (answer, t) := r.take cycle
    .ok (.taken cycle answer (r.queue.filter (· ∉ t.queue)), t)
  | .clear => .ok (.cleared, r.clear)

def perform (r : Resolver) : List Call → Except Overflow (List Event × Resolver)
  | [] => .ok ([], r)
  | c :: rest => do
    let (e, r) ← r.call c
    let (es, r) ← r.perform rest
    return (e :: es, r)

section History

def sinceClear (es : List Event) : List Event :=
  es.foldl (fun kept e => if e = .cleared then [] else kept ++ [e]) []

def stored (es : List Event) : List (Nat × Resolution) :=
  es.filterMap fun
    | .stored slot fact => some (slot, fact)
    | _ => none

def removed (es : List Event) : List (Nat × Resolution) :=
  es.flatMap fun
    | .taken _ _ gone => gone
    | _ => []

variable {es : List Event} {e : Event}

@[simp] theorem sinceClear_cleared : sinceClear (es ++ [.cleared]) = [] := by simp [sinceClear]

theorem sinceClear_concat (h : e ≠ .cleared) : sinceClear (es ++ [e]) = sinceClear es ++ [e] := by
  simp [sinceClear, h]

@[simp] theorem stored_concat_stored (slot : Nat) (fact : Resolution) :
    stored (es ++ [.stored slot fact]) = stored es ++ [(slot, fact)] := by simp [stored]

@[simp] theorem stored_concat_taken (cycle : Nat) (answer : Resolution) (gone : List (Nat × Resolution)) :
    stored (es ++ [.taken cycle answer gone]) = stored es := by simp [stored]

@[simp] theorem removed_concat_stored (slot : Nat) (fact : Resolution) :
    removed (es ++ [.stored slot fact]) = removed es := by simp [removed]

@[simp] theorem removed_concat_taken (cycle : Nat) (answer : Resolution) (gone : List (Nat × Resolution)) :
    removed (es ++ [.taken cycle answer gone]) = removed es ++ gone := by simp [removed]

end History

variable {r t : Resolver} {c : Call} {e : Event}

theorem perform_cons {rest : List Call} {es : List Event} :
    r.perform (c :: rest) = .ok (es, t) ↔
      ∃ e u later, r.call c = .ok (e, u) ∧ u.perform rest = .ok (later, t) ∧ es = e :: later := by
  rw [perform, bind_eq_ok]
  constructor
  · rintro ⟨⟨e, u⟩, hcall, h⟩
    obtain ⟨⟨later, v⟩, hrest, h⟩ := bind_eq_ok.mp h
    cases h
    exact ⟨e, u, later, hcall, hrest, rfl⟩
  · rintro ⟨e, u, later, hcall, hrest, rfl⟩
    exact ⟨(e, u), hcall, bind_eq_ok.mpr ⟨(later, t), hrest, rfl⟩⟩

section Taking

theorem gone_of_idle (queue : List (Nat × Resolution)) : queue.filter (· ∉ queue) = [] := by
  rw [List.filter_eq_nil_iff]
  intro x hx
  simpa using hx

theorem gone_of_due {queue : List (Nat × Resolution)} {x : Nat × Resolution} (h : Ordered (x :: queue)) :
    (x :: queue).filter (· ∉ queue) = [x] := by
  have hx : x ∉ queue := fun hm => Nat.lt_irrefl x.1 ((List.pairwise_cons.mp h).1 x hm)
  rw [List.filter_cons_of_pos (by simpa using hx), gone_of_idle]

/-- A take that removes nothing presents the idle fact; any other presents the one fact that it removes. -/
theorem call_take_cases (h : Ordered r.queue) {cycle : Nat} (hc : r.call (.take cycle) = .ok (e, t)) :
    t = (r.take cycle).2 ∧
      (e = .taken cycle .idle [] ∧ t = r ∧ (∀ x ∈ r.queue, cycle < x.1) ∨
        ∃ slot fact, slot ≤ cycle ∧ e = .taken cycle fact [(slot, fact)] ∧ r.queue = (slot, fact) :: t.queue) := by
  obtain ⟨ht, hlater⟩ | ⟨slot, fact, rest, hq, hd, ht⟩ := take_cases_of_ordered h cycle
  · simp only [call, ht] at hc ⊢
    cases hc
    rw [gone_of_idle]
    exact ⟨rfl, Or.inl ⟨rfl, rfl, hlater⟩⟩
  · rw [hq] at h
    simp only [call, ht, hq, gone_of_due h] at hc ⊢
    cases hc
    exact ⟨rfl, Or.inr ⟨slot, fact, hd, rfl, rfl⟩⟩

end Taking

/-- The three things that a call can do to the slots. -/
theorem call_cases (h : r.Tidy) (hin : c.InRange) (hc : r.call c = .ok (e, t)) :
    (∃ due slot fact, due < Count.limit ∧ r.schedule due fact = .ok (slot, t) ∧ e = .stored slot fact) ∨
      (∃ cycle answer gone, t = (r.take cycle).2 ∧ e = .taken cycle answer gone ∧ r.queue = gone ++ t.queue ∧
        (gone = [] ∧ answer = .idle ∨ ∃ slot ≤ cycle, gone = [(slot, answer)])) ∨
      e = .cleared ∧ t = r.clear := by
  cases c with
  | schedule due fact =>
    obtain ⟨⟨slot, u⟩, hs, hc⟩ := bind_eq_ok.mp hc
    cases hc
    exact Or.inl ⟨due, slot, fact, hin, hs, rfl⟩
  | scheduleAfter cycle fact =>
    obtain ⟨⟨slot, u⟩, hs, hc⟩ := bind_eq_ok.mp hc
    cases hc
    rw [scheduleAfter_eq] at hs
    split at hs
    · rename_i hdue
      exact Or.inl ⟨cycle + r.delay, slot, fact, hdue, hs, rfl⟩
    · cases hs
  | take cycle =>
    obtain ⟨ht, ⟨he, hsame, _⟩ | ⟨slot, fact, hd, he, hq⟩⟩ := call_take_cases h.ordered hc
    · exact Or.inr (Or.inl ⟨cycle, .idle, [], ht, he, by rw [hsame]; rfl, Or.inl ⟨rfl, rfl⟩⟩)
    · exact Or.inr (Or.inl ⟨cycle, fact, [(slot, fact)], ht, he, hq, Or.inr ⟨slot, hd, rfl⟩⟩)
  | clear =>
    cases hc
    exact Or.inr (Or.inr ⟨rfl, rfl⟩)

/-- A history of calls and the slots that it has left. -/
structure Balanced (delay : Nat) (es : List Event) (r : Resolver) : Prop where
  tidy : r.Tidy
  delay_eq : r.delay = delay
  balance : (stored (sinceClear es)).Perm (removed (sinceClear es) ++ r.queue)
  answers : ∀ cycle answer gone, .taken cycle answer gone ∈ es →
    gone = [] ∧ answer = .idle ∨ ∃ slot ≤ cycle, gone = [(slot, answer)]

theorem balanced_nil (delay : Nat) : Balanced delay [] { delay } :=
  ⟨⟨List.Pairwise.nil, by simp⟩, rfl, List.Perm.refl _, by simp⟩

theorem Balanced.call {delay : Nat} {es : List Event} (h : Balanced delay es r) (hin : c.InRange)
    (hc : r.call c = .ok (e, t)) : Balanced delay (es ++ [e]) t := by
  obtain ⟨due, slot, fact, hdue, hs, rfl⟩ | ⟨cycle, answer, gone, rfl, rfl, hq, hgone⟩ | ⟨rfl, rfl⟩ :=
    call_cases h.tidy hin hc
  · refine ⟨h.tidy.schedule hdue hs, (delay_schedule hs).trans h.delay_eq, ?_, by simpa using h.answers⟩
    obtain ⟨after, hp, rfl⟩ := schedule_eq_ok.mp hs
    have hadded : (stored (sinceClear es) ++ [(slot, fact)]).Perm
        (removed (sinceClear es) ++ (r.queue ++ [(slot, fact)])) := by
      rw [← List.append_assoc]
      exact h.balance.append_right _
    have hplaced : (r.queue ++ [(slot, fact)]).Perm after :=
      (List.perm_append_singleton _ _).trans (place_perm hp).symm
    rw [sinceClear_concat (by simp), stored_concat_stored, removed_concat_stored]
    exact hadded.trans (hplaced.append_left _)
  · refine ⟨h.tidy.take cycle, (r.delay_take cycle).trans h.delay_eq, ?_, ?_⟩
    · rw [sinceClear_concat (by simp), stored_concat_taken, removed_concat_taken, List.append_assoc, ← hq]
      exact h.balance
    · intro c a g hm
      rcases List.mem_append.mp hm with hm | hm
      · exact h.answers c a g hm
      · cases List.mem_singleton.mp hm
        exact hgone
  · refine ⟨⟨List.Pairwise.nil, by simp [clear]⟩, h.delay_eq, ?_, by simpa using h.answers⟩
    rw [sinceClear_cleared]
    exact List.Perm.refl _

theorem Balanced.perform {delay : Nat} {es later : List Event} {calls : List Call} (h : Balanced delay es r)
    (hin : ∀ c ∈ calls, c.InRange) (hc : r.perform calls = .ok (later, t)) : Balanced delay (es ++ later) t := by
  induction calls generalizing r es later with
  | nil =>
    cases hc
    rw [List.append_nil]
    exact h
  | cons c rest ih =>
    obtain ⟨e, u, later, hcall, hrest, rfl⟩ := perform_cons.mp hc
    have hu := h.call (hin c List.mem_cons_self) hcall
    have ht := ih hu (fun d hd => hin d (List.mem_cons_of_mem _ hd)) hrest
    rwa [List.append_assoc, List.singleton_append] at ht

/-- What each call does next, told by the slots. -/
structure BySlots (r : Resolver) : Prop where
  schedule_ok : ∀ {due slot : Nat} {fact : Resolution} {t : Resolver}, due < Count.limit →
    r.schedule due fact = .ok (slot, t) → Stores r t due slot fact
  schedule_error : ∀ {due : Nat} {fact : Resolution}, due < Count.limit →
    ((∃ o, r.schedule due fact = .error o) ↔ ∀ k, due ≤ k → k < Count.limit → (r.held k).isSome)
  scheduleAfter_ok : ∀ {cycle slot : Nat} {fact : Resolution} {t : Resolver},
    r.scheduleAfter cycle fact = .ok (slot, t) → Stores r t (cycle + r.delay) slot fact
  scheduleAfter_error : ∀ {cycle : Nat} {fact : Resolution},
    (∃ o, r.scheduleAfter cycle fact = .error o) ↔
      Count.limit ≤ cycle + r.delay ∨ ∀ k, cycle + r.delay ≤ k → k < Count.limit → (r.held k).isSome
  take : ∀ cycle, (∃ slot ≤ cycle, Removes r (r.take cycle).2 slot (r.take cycle).1) ∨
    r.take cycle = (.idle, r) ∧ ∀ k ≤ cycle, r.held k = none
  clear : ∀ k, r.clear.held k = none

theorem Tidy.bySlots (h : r.Tidy) : r.BySlots where
  schedule_ok := h.stores
  schedule_error := h.schedule_refused_iff
  scheduleAfter_ok := by
    intro cycle slot fact t hs
    rw [scheduleAfter_eq] at hs
    split at hs
    · rename_i hdue
      exact h.stores hdue hs
    · cases hs
  scheduleAfter_error := by
    intro cycle fact
    rw [scheduleAfter_eq]
    split
    · rename_i hdue
      have hnot : ¬Count.limit ≤ cycle + r.delay := by omega
      rw [h.schedule_refused_iff hdue, or_iff_right hnot]
      rfl
    · rename_i hdue
      exact ⟨fun _ => Or.inl (by omega), fun _ => ⟨.add, rfl⟩⟩
  take := h.take_spec
  clear := fun _ => rfl

/-- After any calls, the next one goes by the slots. Since the queue was last cleared, what has been stored is what has been
removed and what is pending, and a take has presented what it removed. -/
theorem perform_ledger {delay : Nat} {calls : List Call} {es : List Event} (hin : ∀ c ∈ calls, c.InRange)
    (h : perform { delay } calls = .ok (es, r)) :
    r.BySlots ∧ r.delay = delay ∧ (stored (sinceClear es)).Perm (removed (sinceClear es) ++ r.queue) ∧
    r.pending = r.queue.length ∧ r.pending = {k | (r.held k).isSome}.ncard ∧
    (∀ x, (removed (sinceClear es)).count x ≤ (stored (sinceClear es)).count x) ∧
    ∀ cycle answer gone, .taken cycle answer gone ∈ es →
      gone = [] ∧ answer = .idle ∨ ∃ slot ≤ cycle, gone = [(slot, answer)] := by
  have hend : Balanced delay es r := (balanced_nil delay).perform hin h
  refine ⟨hend.tidy.bySlots, hend.delay_eq, hend.balance, rfl, hend.tidy.pending_eq, ?_, hend.answers⟩
  intro x
  rw [hend.balance.count_eq, List.count_append]
  exact Nat.le_add_right _ _

/-- Two facts collide, an overdue one is taken, and the cycle that it leaves is used again. The last cycle of the range is
taken, so nothing more can be scheduled for it. -/
theorem perform_ledger_collision :
    ∃ (calls : List Call) (es : List Event) (r : Resolver) (a b c d : Resolution),
      calls = [.schedule (Count.limit - 1) a, .schedule 3 b, .schedule 3 c, .take 9, .scheduleAfter 1 d] ∧
      (∀ x ∈ calls, x.InRange) ∧ perform { delay := 2 } calls = .ok (es, r) ∧
      r.queue = [(3, d), (4, c), (Count.limit - 1, a)] ∧ removed (sinceClear es) = [(3, b)] ∧
      (stored (sinceClear es)).Perm ((3, b) :: r.queue) ∧ ∃ o, r.schedule (Count.limit - 1) d = .error o := by
  let fact (a : Address) : Resolution := ⟨true, true, a, 64⟩
  let calls : List Call := [.schedule (Count.limit - 1) (fact 4), .schedule 3 (fact 8), .schedule 3 (fact 12), .take 9,
    .scheduleAfter 1 (fact 16)]
  have hin : ∀ x ∈ calls, x.InRange := by
    simp [calls, Call.InRange]
  have hrun : perform { delay := 2 } calls =
      .ok ([.stored (Count.limit - 1) (fact 4), .stored 3 (fact 8), .stored 4 (fact 12), .taken 9 (fact 8) [(3, fact 8)],
        .stored 3 (fact 16)], { delay := 2, queue := [(3, fact 16), (4, fact 12), (Count.limit - 1, fact 4)] }) := rfl
  obtain ⟨hslots, _, hbalance, _⟩ := perform_ledger hin hrun
  refine ⟨calls, _, _, fact 4, fact 8, fact 12, fact 16, rfl, hin, hrun, rfl, rfl, hbalance, ?_⟩
  rw [hslots.schedule_error (by decide)]
  intro k hk hlt
  obtain rfl : k = Count.limit - 1 := by omega
  rfl

end FetchStage.Resolver
