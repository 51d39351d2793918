import FetchStage.Proofs.Resolver.Queue
import Mathlib.Data.Set.Card

/-! # Slots of the resolution queue

The queue is a map from cycles to facts, kept in the order of the cycles. Scheduling searches upwards for the first cycle that
holds nothing; it is refused only where the search would leave the range of cycles. Taking empties the earliest cycle that
holds a fact, once that cycle is due.
-/
namespace FetchStage.Resolver

def Ordered (queue : List (Nat × Resolution)) : Prop := queue.Pairwise fun x y => x.1 < y.1

section Lookup
variable {queue : List (Nat × Resolution)} {cycle k : Nat} {held fact : Resolution}

theorem lookup_of_lt (h : ∀ x ∈ queue, k < x.1) : queue.lookup k = none := by
  rw [List.lookup_eq_none_iff]
  intro x hx
  have hlt := h x hx
  rw [bne_iff_ne]
  omega

theorem lookup_cons_of_ne (h : k ≠ cycle) : ((cycle, held) :: queue).lookup k = queue.lookup k := by
  rw [List.lookup_cons, beq_eq_false_iff_ne.mpr h]

theorem lookup_eq_some (h : Ordered queue) : queue.lookup k = some fact ↔ (k, fact) ∈ queue := by
  induction queue with
  | nil => simp
  | cons x rest ih =>
    rcases x with ⟨cycle, held⟩
    obtain ⟨hfirst, hrest⟩ := List.pairwise_cons.mp h
    by_cases hk : k = cycle
    · subst hk
      have hnot : (k, fact) ∉ rest := fun hm => Nat.lt_irrefl k (hfirst (k, fact) hm)
      rw [List.lookup_cons_self, List.mem_cons, Option.some_inj, Prod.mk.injEq]
      constructor
      · rintro rfl
        exact Or.inl ⟨rfl, rfl⟩
      · rintro (⟨_, rfl⟩ | hm)
        · rfl
        · exact absurd hm hnot
    · rw [lookup_cons_of_ne hk, ih hrest, List.mem_cons, Prod.mk.injEq]
      simp [hk]

end Lookup

/-- The first cycle from `due` on that holds nothing. -/
structure FirstFree (queue : List (Nat × Resolution)) (due slot : Nat) : Prop where
  due_le : due ≤ slot
  free : queue.lookup slot = none
  taken : ∀ k, due ≤ k → k < slot → (queue.lookup k).isSome

/-- Every cycle of the range from `due` on holds a fact. -/
def FullFrom (queue : List (Nat × Resolution)) (due : Nat) : Prop :=
  ∀ k, due ≤ k → k < Count.limit → (queue.lookup k).isSome

section Place
variable {queue rest after : List (Nat × Resolution)} {cycle due slot : Nat} {held fact : Resolution} {o : Overflow}

theorem FirstFree.cons_of_lt (h : FirstFree rest due slot) (hc : cycle < due) :
    FirstFree ((cycle, held) :: rest) due slot := by
  have hslot := h.due_le
  refine ⟨hslot, ?_, ?_⟩
  · rw [lookup_cons_of_ne (by omega), h.free]
  · intro k hk hlt
    rw [lookup_cons_of_ne (by omega)]
    exact h.taken k hk hlt

theorem FirstFree.cons_self (h : FirstFree rest (due + 1) slot) : FirstFree ((due, held) :: rest) due slot := by
  have hslot := h.due_le
  refine ⟨by omega, ?_, ?_⟩
  · rw [lookup_cons_of_ne (by omega), h.free]
  · intro k hk hlt
    by_cases he : k = due
    · rw [he, List.lookup_cons_self]
      rfl
    · rw [lookup_cons_of_ne he]
      exact h.taken k (by omega) hlt

theorem FullFrom.cons_of_lt (h : FullFrom rest due) (hc : cycle < due) : FullFrom ((cycle, held) :: rest) due := by
  intro k hk hlt
  rw [lookup_cons_of_ne (by omega)]
  exact h k hk hlt

theorem FullFrom.cons_self (h : FullFrom rest (due + 1)) : FullFrom ((due, held) :: rest) due := by
  intro k hk hlt
  by_cases he : k = due
  · rw [he, List.lookup_cons_self]
    rfl
  · rw [lookup_cons_of_ne he]
    exact h k (by omega) hlt

theorem place_firstFree (hq : Ordered queue) (h : place fact due queue = .ok (slot, after)) :
    FirstFree queue due slot ∧ Ordered after ∧ (due < Count.limit → slot < Count.limit) := by
  induction queue generalizing due slot after with
  | nil =>
    cases h
    exact ⟨⟨Nat.le_refl _, rfl, by omega⟩, List.pairwise_singleton _ _, id⟩
  | cons x rest ih =>
    rcases x with ⟨cycle, held⟩
    obtain ⟨hfirst, hrest⟩ := List.pairwise_cons.mp hq
    obtain ⟨hlt, rfl, rfl⟩ | ⟨next, later, hp, rfl, hnext⟩ := place_cons_cases h
    · have hbefore : ∀ y ∈ (cycle, held) :: rest, slot < y.1 := by
        intro y hy
        rcases List.mem_cons.mp hy with rfl | hy
        · exact hlt
        · exact Nat.lt_trans hlt (hfirst y hy)
      exact ⟨⟨Nat.le_refl _, lookup_of_lt hbefore, by omega⟩, List.pairwise_cons.mpr ⟨hbefore, hq⟩, id⟩
    · obtain ⟨hfree, hlater, hslot⟩ := ih hrest hp
      have hordered : Ordered ((cycle, held) :: later) := by
        refine List.pairwise_cons.mpr ⟨?_, hlater⟩
        intro y hy
        rcases List.mem_cons.mp ((place_perm hp).mem_iff.mp hy) with rfl | hy
        · have hle := hfree.due_le
          dsimp only
          omega
        · exact hfirst y hy
      rcases hnext with ⟨hc, rfl⟩ | ⟨rfl, rfl, hlimit⟩
      · exact ⟨hfree.cons_of_lt hc, hordered, hslot⟩
      · exact ⟨hfree.cons_self, hordered, fun _ => hslot hlimit⟩

theorem place_cons_error (h : place fact due ((cycle, held) :: rest) = .error o) :
    cycle = due ∧ Count.limit ≤ due + 1 ∧ o = .add ∨
      ∃ next, place fact next rest = .error o ∧ (cycle < due ∧ next = due ∨ cycle = due ∧ next = due + 1) := by
  have hrest : ∀ {next : Nat}, (place fact next rest >>= fun p => pure (p.1, (cycle, held) :: p.2)) = .error o →
      place fact next rest = .error o := by
    intro next hnext
    rcases bind_eq_error.mp hnext with hp | ⟨_, _, hp⟩
    · exact hp
    · cases hp
  rw [place] at h
  split at h
  · cases h
  · split at h
    · rename_i he
      by_cases hlimit : due + 1 < Count.limit
      · rw [Count.succ_of_lt hlimit] at h
        exact Or.inr ⟨due + 1, hrest h, Or.inr ⟨he, rfl⟩⟩
      · rw [show Count.succ due = .error .add from if_neg hlimit] at h
        cases h
        exact Or.inl ⟨he, Nat.le_of_not_lt hlimit, rfl⟩
    · exact Or.inr ⟨due, hrest h, Or.inl ⟨by omega, rfl⟩⟩

theorem place_fullFrom (h : place fact due queue = .error o) : o = .add ∧ FullFrom queue due := by
  induction queue generalizing due with
  | nil => cases h
  | cons x rest ih =>
    rcases x with ⟨cycle, held⟩
    obtain ⟨rfl, hlimit, rfl⟩ | ⟨next, hp, ⟨hc, rfl⟩ | ⟨rfl, rfl⟩⟩ := place_cons_error h
    · refine ⟨rfl, ?_⟩
      intro k hk hlt
      obtain rfl : k = cycle := by omega
      rw [List.lookup_cons_self]
      rfl
    · obtain ⟨ho, hfull⟩ := ih hp
      exact ⟨ho, hfull.cons_of_lt hc⟩
    · obtain ⟨ho, hfull⟩ := ih hp
      exact ⟨ho, hfull.cons_self⟩

end Place

/-- The fact in a slot. -/
def held (r : Resolver) (slot : Nat) : Option Resolution := r.queue.lookup slot

/-- The slots are in order and in range. -/
structure Tidy (r : Resolver) : Prop where
  ordered : Ordered r.queue
  bounded : ∀ x ∈ r.queue, x.1 < Count.limit

/-- A fact has gone into the first free slot, and the others are as before. -/
structure Stores (r t : Resolver) (due slot : Nat) (fact : Resolution) : Prop where
  due_le : due ≤ slot
  slot_lt : slot < Count.limit
  free : r.held slot = none
  least : ∀ k, due ≤ k → k < slot → (r.held k).isSome
  held_eq : ∀ k, t.held k = if k = slot then some fact else r.held k
  delay_eq : t.delay = r.delay

/-- The earliest fact has left its slot, and the others are as before. -/
structure Removes (r t : Resolver) (slot : Nat) (fact : Resolution) : Prop where
  held : r.held slot = some fact
  least : ∀ k, k < slot → r.held k = none
  held_eq : ∀ k, t.held k = if k = slot then none else r.held k
  delay_eq : t.delay = r.delay

section Operations
variable {r t : Resolver} {due slot cycle : Nat} {fact : Resolution} {o : Overflow}

theorem Tidy.held_eq_some (h : r.Tidy) : r.held slot = some fact ↔ (slot, fact) ∈ r.queue := lookup_eq_some h.ordered

theorem schedule_eq_ok : r.schedule due fact = .ok (slot, t) ↔
    ∃ after, place fact due r.queue = .ok (slot, after) ∧ t = { r with queue := after } := by
  rw [schedule, bind_eq_ok]
  constructor
  · rintro ⟨⟨s, after⟩, hp, h⟩
    cases h
    exact ⟨after, hp, rfl⟩
  · rintro ⟨after, hp, rfl⟩
    exact ⟨(slot, after), hp, rfl⟩

theorem schedule_eq_error : r.schedule due fact = .error o ↔ place fact due r.queue = .error o := by
  rw [schedule]
  cases place fact due r.queue with
  | error e => simp [bind, Except.bind]
  | ok p =>
    simp only [bind, Except.bind, pure, Except.pure]
    constructor <;> intro h <;> cases h

theorem Tidy.schedule (h : r.Tidy) (hdue : due < Count.limit) (hs : r.schedule due fact = .ok (slot, t)) : t.Tidy := by
  obtain ⟨after, hp, rfl⟩ := schedule_eq_ok.mp hs
  obtain ⟨_, hordered, hslot⟩ := place_firstFree h.ordered hp
  refine ⟨hordered, ?_⟩
  intro x hx
  rcases List.mem_cons.mp ((place_perm hp).mem_iff.mp hx) with rfl | hx
  · exact hslot hdue
  · exact h.bounded x hx

theorem Tidy.stores (h : r.Tidy) (hdue : due < Count.limit) (hs : r.schedule due fact = .ok (slot, t)) :
    Stores r t due slot fact := by
  have ht := h.schedule hdue hs
  obtain ⟨after, hp, rfl⟩ := schedule_eq_ok.mp hs
  obtain ⟨hfree, _, hslot⟩ := place_firstFree h.ordered hp
  refine ⟨hfree.due_le, hslot hdue, hfree.free, hfree.taken, ?_, rfl⟩
  have hmem := fun x => (place_perm hp).mem_iff (a := x)
  intro k
  by_cases hk : k = slot
  · rw [if_pos hk, ht.held_eq_some, hk]
    exact (hmem _).mpr List.mem_cons_self
  · rw [if_neg hk]
    apply Option.ext
    intro f
    rw [ht.held_eq_some, h.held_eq_some, hmem, List.mem_cons, Prod.mk.injEq]
    simp [hk]

theorem Tidy.schedule_refused_iff (h : r.Tidy) (hdue : due < Count.limit) :
    (∃ o, r.schedule due fact = .error o) ↔ FullFrom r.queue due := by
  constructor
  · rintro ⟨o, ho⟩
    exact (place_fullFrom (schedule_eq_error.mp ho)).2
  · intro hfull
    cases hs : r.schedule due fact with
    | error o => exact ⟨o, rfl⟩
    | ok x =>
      rcases x with ⟨slot, t⟩
      have hstores := h.stores hdue hs
      have htaken := hfull slot hstores.due_le hstores.slot_lt
      rw [show r.queue.lookup slot = none from hstores.free] at htaken
      cases htaken

/-- The due cycle is found by an addition that may leave the range by itself. -/
theorem scheduleAfter_eq : r.scheduleAfter cycle fact =
    if cycle + r.delay < Count.limit then r.schedule (cycle + r.delay) fact else .error .add := by
  rw [scheduleAfter, Count.add]
  split <;> rfl

theorem Tidy.take (h : r.Tidy) (cycle : Nat) : (r.take cycle).2.Tidy := by
  rcases r.take_cases cycle with ht | ⟨due, fact, rest, hq, _, ht⟩
  · rw [ht]
    exact h
  · have hordered := h.ordered
    rw [hq] at hordered
    rw [ht]
    refine ⟨(List.pairwise_cons.mp hordered).2, ?_⟩
    intro x hx
    apply h.bounded x
    rw [hq]
    exact List.mem_cons_of_mem _ hx

theorem Tidy.removes (h : r.Tidy) {rest : List (Nat × Resolution)} (hq : r.queue = (slot, fact) :: rest) :
    Removes r { r with queue := rest } slot fact := by
  have hordered := h.ordered
  rw [hq] at hordered
  obtain ⟨hfirst, _⟩ := List.pairwise_cons.mp hordered
  have hheld : ∀ k, r.held k = ((slot, fact) :: rest).lookup k := by
    intro k
    rw [held, hq]
  refine ⟨?_, ?_, ?_, rfl⟩
  · rw [hheld, List.lookup_cons_self]
  · intro k hk
    rw [hheld]
    apply lookup_of_lt
    intro y hy
    rcases List.mem_cons.mp hy with rfl | hy
    · exact hk
    · exact Nat.lt_trans hk (hfirst y hy)
  · intro k
    by_cases hk : k = slot
    · rw [if_pos hk, hk]
      exact lookup_of_lt hfirst
    · rw [if_neg hk, hheld, lookup_cons_of_ne hk]
      rfl

/-- The earliest fact is presented if it is due; otherwise no fact is. -/
theorem take_cases_of_ordered (h : Ordered r.queue) (cycle : Nat) :
    (r.take cycle = (.idle, r) ∧ ∀ x ∈ r.queue, cycle < x.1) ∨
      ∃ slot fact rest, r.queue = (slot, fact) :: rest ∧ slot ≤ cycle ∧
        r.take cycle = (fact, { r with queue := rest }) := by
  cases hq : r.queue with
  | nil =>
    have hidle : r.take cycle = (.idle, r) := by rw [Resolver.take, hq]
    exact Or.inl ⟨hidle, by simp⟩
  | cons x rest =>
    rcases x with ⟨slot, fact⟩
    rw [hq] at h
    by_cases hd : slot ≤ cycle
    · exact Or.inr ⟨slot, fact, rest, rfl, hd, take_of_due hq hd⟩
    · have hlater : ∀ y ∈ (slot, fact) :: rest, cycle < y.1 := by
        intro y hy
        rcases List.mem_cons.mp hy with rfl | hy
        · exact Nat.lt_of_not_le hd
        · exact Nat.lt_trans (Nat.lt_of_not_le hd) ((List.pairwise_cons.mp h).1 y hy)
      exact Or.inl ⟨take_of_lt (hq ▸ hlater), hlater⟩

theorem Tidy.take_spec (h : r.Tidy) (cycle : Nat) :
    (∃ slot ≤ cycle, Removes r (r.take cycle).2 slot (r.take cycle).1) ∨
      r.take cycle = (.idle, r) ∧ ∀ k ≤ cycle, r.held k = none := by
  obtain ⟨hidle, hlater⟩ | ⟨slot, fact, rest, hq, hd, ht⟩ := take_cases_of_ordered h.ordered cycle
  · right
    refine ⟨hidle, ?_⟩
    intro k hk
    apply lookup_of_lt
    intro y hy
    exact Nat.lt_of_le_of_lt hk (hlater y hy)
  · left
    rw [ht]
    exact ⟨slot, hd, h.removes hq⟩

theorem Ordered.nodup_slots {queue : List (Nat × Resolution)} (h : Ordered queue) : (queue.map (·.1)).Nodup := by
  rw [List.nodup_iff_pairwise_ne, List.pairwise_map]
  exact h.imp fun hlt => Nat.ne_of_lt hlt

theorem Tidy.pending_eq (h : r.Tidy) : r.pending = {k | (r.held k).isSome}.ncard := by
  have hset : {k | (r.held k).isSome} = ↑(r.queue.map (·.1)).toFinset := by
    ext k
    rw [Set.mem_ofPred_eq, Option.isSome_iff_exists, List.coe_toFinset, Set.mem_ofPred_eq, List.mem_map]
    constructor
    · rintro ⟨f, hf⟩
      exact ⟨(k, f), h.held_eq_some.mp hf, rfl⟩
    · rintro ⟨⟨_, f⟩, hm, rfl⟩
      exact ⟨f, h.held_eq_some.mpr hm⟩
  rw [hset, Set.ncard_coe_finset, List.toFinset_card_of_nodup h.ordered.nodup_slots, List.length_map]
  rfl

end Operations

end FetchStage.Resolver
