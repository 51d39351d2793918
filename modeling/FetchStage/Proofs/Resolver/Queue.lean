import FetchStage.Resolver

/-! # Facts in the resolution queue

Scheduling adds one fact and keeps the others; taking presents a queued fact, or the idle one. Two queues that differ by a
shift in time present the same facts, each at its own time.
-/
namespace FetchStage.Resolver

/-- A fact goes before the first cycle, or among the rest: from the same cycle on, or from the next if that one is taken. -/
theorem place_cons_cases {fact held : Resolution} {cycle due slot : Nat} {rest after : List (Nat × Resolution)}
    (h : place fact due ((cycle, held) :: rest) = .ok (slot, after)) :
    due < cycle ∧ slot = due ∧ after = (due, fact) :: (cycle, held) :: rest ∨
      ∃ next later, place fact next rest = .ok (slot, later) ∧ after = (cycle, held) :: later ∧
        (cycle < due ∧ next = due ∨ cycle = due ∧ next = due + 1 ∧ due + 1 < Count.limit) := by
  rw [place] at h
  split at h
  · rename_i hlt
    cases h
    exact Or.inl ⟨hlt, rfl, rfl⟩
  · rename_i hlt
    right
    split at h
    · rename_i he
      obtain ⟨next, hnext, h⟩ := bind_eq_ok.mp h
      obtain ⟨rfl, hlimit⟩ := Count.succ_eq_ok_iff.mp hnext
      obtain ⟨⟨_, later⟩, hp, h⟩ := bind_eq_ok.mp h
      cases h
      exact ⟨due + 1, later, hp, rfl, Or.inr ⟨he, rfl, hlimit⟩⟩
    · rename_i he
      obtain ⟨_, hnext, h⟩ := bind_eq_ok.mp h
      cases hnext
      obtain ⟨⟨_, later⟩, hp, h⟩ := bind_eq_ok.mp h
      cases h
      exact ⟨due, later, hp, rfl, Or.inl ⟨by omega, rfl⟩⟩

theorem place_perm {fact : Resolution} {due slot : Nat} {queue after : List (Nat × Resolution)}
    (h : place fact due queue = .ok (slot, after)) : after.Perm ((slot, fact) :: queue) := by
  induction queue generalizing due slot after with
  | nil =>
    cases h
    exact List.Perm.refl _
  | cons x rest ih =>
    obtain ⟨_, rfl, rfl⟩ | ⟨next, later, hp, rfl, _⟩ := place_cons_cases h
    · exact List.Perm.refl _
    · exact ((ih hp).cons x).trans (List.Perm.swap _ _ _)

theorem scheduleAfter_perm {r t : Resolver} {cycle slot : Nat} {fact : Resolution}
    (h : r.scheduleAfter cycle fact = .ok (slot, t)) : t.queue.Perm ((slot, fact) :: r.queue) := by
  obtain ⟨due, _, h⟩ := bind_eq_ok.mp h
  obtain ⟨⟨slot, queue⟩, hp, h⟩ := bind_eq_ok.mp h
  cases h
  exact place_perm hp

theorem take_cases (r : Resolver) (cycle : Nat) :
    r.take cycle = (.idle, r) ∨
    ∃ due fact rest, r.queue = (due, fact) :: rest ∧ due ≤ cycle ∧ r.take cycle = (fact, { r with queue := rest }) := by
  unfold take
  cases hq : r.queue with
  | nil => exact Or.inl rfl
  | cons x rest =>
    rcases x with ⟨due, fact⟩
    by_cases hd : due ≤ cycle
    · exact Or.inr ⟨due, fact, rest, rfl, hd, by simp [hd]⟩
    · exact Or.inl (by simp [hd])

theorem mem_of_take_resolved {r : Resolver} {cycle : Nat} (h : (r.take cycle).1.resolved) :
    ∃ due, (due, (r.take cycle).1) ∈ r.queue := by
  rcases r.take_cases cycle with ht | ⟨due, fact, rest, hq, _, ht⟩
  · rw [ht] at h
    cases h
  · rw [ht, hq]
    exact ⟨due, List.mem_cons_self⟩

theorem mem_of_mem_take {r : Resolver} {cycle : Nat} {x : Nat × Resolution} (h : x ∈ (r.take cycle).2.queue) :
    x ∈ r.queue := by
  rcases r.take_cases cycle with ht | ⟨due, fact, rest, hq, _, ht⟩
  · rwa [ht] at h
  · rw [ht] at h
    rw [hq]
    exact List.mem_cons_of_mem _ h

theorem delay_take (r : Resolver) (cycle : Nat) : (r.take cycle).2.delay = r.delay := by
  rcases r.take_cases cycle with ht | ⟨due, fact, rest, _, _, ht⟩ <;> rw [ht]

theorem delay_schedule {r t : Resolver} {due slot : Nat} {fact : Resolution} (h : r.schedule due fact = .ok (slot, t)) :
    t.delay = r.delay := by
  obtain ⟨⟨slot, queue⟩, _, h⟩ := bind_eq_ok.mp h
  cases h
  rfl

/-- After every queued fact the cycle it is due on is free. -/
theorem place_of_lt {fact : Resolution} {due : Nat} {queue : List (Nat × Resolution)} (h : ∀ x ∈ queue, x.1 < due) :
    place fact due queue = .ok (due, queue ++ [(due, fact)]) := by
  induction queue with
  | nil => rfl
  | cons x rest ih =>
    rcases x with ⟨cycle, held⟩
    have hx : cycle < due := h (cycle, held) List.mem_cons_self
    have hrest := ih fun y hy => h y (List.mem_cons_of_mem _ hy)
    have hlt : ¬due < cycle := by omega
    have hne : ¬cycle = due := by omega
    rw [place, if_neg hlt, if_neg hne]
    exact bind_eq_ok.mpr ⟨due, rfl, bind_eq_ok.mpr ⟨_, hrest, rfl⟩⟩

theorem scheduleAfter_of_lt {r t : Resolver} {cycle slot : Nat} {fact : Resolution}
    (h : ∀ x ∈ r.queue, x.1 < cycle + r.delay) (hs : r.scheduleAfter cycle fact = .ok (slot, t)) :
    t = { r with queue := r.queue ++ [(cycle + r.delay, fact)] } := by
  obtain ⟨due, hdue, hs⟩ := bind_eq_ok.mp hs
  obtain ⟨rfl, _⟩ := Count.add_eq_ok_iff.mp hdue
  rw [schedule, place_of_lt h] at hs
  cases hs
  rfl

theorem scheduleAfter_returns {r : Resolver} {cycle : Nat} (fact : Resolution)
    (h : ∀ x ∈ r.queue, x.1 < cycle + r.delay) (hn : cycle + r.delay < Count.limit) :
    ∃ x, r.scheduleAfter cycle fact = .ok x :=
  ⟨_, bind_eq_ok.mpr ⟨_, Count.add_eq_ok_iff.mpr ⟨rfl, hn⟩, bind_eq_ok.mpr ⟨_, place_of_lt h, rfl⟩⟩⟩

theorem take_of_lt {r : Resolver} {cycle : Nat} (h : ∀ x ∈ r.queue, cycle < x.1) : r.take cycle = (.idle, r) := by
  rcases r.take_cases cycle with ht | ⟨due, fact, rest, hq, hd, _⟩
  · exact ht
  · have hlt := h (due, fact) (by simp [hq])
    omega

theorem take_of_due {r : Resolver} {cycle due : Nat} {fact : Resolution} {rest : List (Nat × Resolution)}
    (hq : r.queue = (due, fact) :: rest) (hd : due ≤ cycle) : r.take cycle = (fact, { r with queue := rest }) := by
  simp [take, hq, hd]

section Later
variable {d : Nat} {s t : Resolver}

/-- The same facts, each due `d` cycles later. -/
structure Later (d : Nat) (s t : Resolver) : Prop where
  delay : s.delay = t.delay
  queue : s.queue = t.queue.map fun x => (d + x.1, x.2)

theorem place_later {fact : Resolution} {due slot : Nat} {queue after : List (Nat × Resolution)}
    (h : place fact (d + due) (queue.map fun x => (d + x.1, x.2)) = .ok (slot, after)) :
    ∃ slot' after', place fact due queue = .ok (slot', after') ∧ after = after'.map fun x => (d + x.1, x.2) := by
  induction queue generalizing due slot after with
  | nil =>
    cases h
    exact ⟨due, [(due, fact)], rfl, rfl⟩
  | cons x rest ih =>
    rcases x with ⟨cycle, held⟩
    simp only [List.map_cons, place, Nat.add_lt_add_iff_left, Nat.add_left_cancel_iff] at h ⊢
    by_cases hlt : due < cycle
    · rw [if_pos hlt] at h ⊢
      cases h
      exact ⟨due, (due, fact) :: (cycle, held) :: rest, rfl, rfl⟩
    · rw [if_neg hlt] at h ⊢
      by_cases he : cycle = due
      · rw [if_pos he] at h ⊢
        obtain ⟨next, hnext, h⟩ := bind_eq_ok.mp h
        obtain ⟨rfl, hlimit⟩ := Count.succ_eq_ok_iff.mp hnext
        obtain ⟨⟨slot, later⟩, hp, h⟩ := bind_eq_ok.mp h
        cases h
        rw [Nat.add_assoc] at hp
        obtain ⟨slot', after', hplace, rfl⟩ := ih hp
        have hsucc := Count.succ_of_lt (n := due) (by omega)
        exact ⟨slot', (cycle, held) :: after', bind_eq_ok.mpr ⟨_, hsucc, bind_eq_ok.mpr ⟨_, hplace, rfl⟩⟩, rfl⟩
      · rw [if_neg he] at h ⊢
        obtain ⟨_, hnext, h⟩ := bind_eq_ok.mp h
        cases hnext
        obtain ⟨⟨slot, later⟩, hp, h⟩ := bind_eq_ok.mp h
        cases h
        obtain ⟨slot', after', hplace, rfl⟩ := ih hp
        exact ⟨slot', (cycle, held) :: after', bind_eq_ok.mpr ⟨due, rfl, bind_eq_ok.mpr ⟨_, hplace, rfl⟩⟩, rfl⟩

theorem Later.scheduleAfter (h : s.Later d t) {cycle slot : Nat} {fact : Resolution} {u : Resolver}
    (hs : s.scheduleAfter (d + cycle) fact = .ok (slot, u)) :
    ∃ slot' v, t.scheduleAfter cycle fact = .ok (slot', v) ∧ u.Later d v := by
  obtain ⟨due, hdue, hs⟩ := bind_eq_ok.mp hs
  obtain ⟨rfl, hlimit⟩ := Count.add_eq_ok_iff.mp hdue
  obtain ⟨⟨slot, queue⟩, hp, hs⟩ := bind_eq_ok.mp hs
  cases hs
  rw [h.delay] at hlimit
  rw [h.queue, h.delay, Nat.add_assoc] at hp
  obtain ⟨slot', after', hplace, rfl⟩ := place_later hp
  have hadd : Count.add cycle t.delay = .ok (cycle + t.delay) := Count.add_eq_ok_iff.mpr ⟨rfl, by omega⟩
  exact ⟨slot', { t with queue := after' },
    bind_eq_ok.mpr ⟨_, hadd, bind_eq_ok.mpr ⟨_, hplace, rfl⟩⟩, h.delay, rfl⟩

theorem Later.take (h : s.Later d t) (cycle : Nat) :
    (s.take (d + cycle)).1 = (t.take cycle).1 ∧ (s.take (d + cycle)).2.Later d (t.take cycle).2 := by
  unfold Resolver.take
  rw [h.queue]
  cases hq : t.queue with
  | nil => exact ⟨rfl, h⟩
  | cons x rest =>
    rcases x with ⟨due, fact⟩
    simp only [List.map_cons, Nat.add_le_add_iff_left]
    split
    · exact ⟨rfl, h.delay, rfl⟩
    · exact ⟨rfl, h⟩

end Later

end FetchStage.Resolver
