import FetchStage.Proofs.Resolver.Ledger

/-! # Facts are presented on the cycle they were given

Takes come once for every cycle, in order, and facts are scheduled for cycles that have not been taken yet. However the facts
collide, none of them is then overdue: before the take of a cycle, the queue holds what has been stored since the last clear in
that slot or a later one. So the slot that a fact was given is the cycle that presents it.
-/
namespace FetchStage.Resolver

/-- Takes are for `c`, `c + 1` and so on, and no fact is scheduled for a cycle that has been taken. -/
def OnTime (delay : Nat) : Nat → List Call → Prop
  | _, [] => True
  | c, .schedule due _ :: rest => c ≤ due ∧ OnTime delay c rest
  | c, .scheduleAfter cycle _ :: rest => c ≤ cycle + delay ∧ OnTime delay c rest
  | c, .take cycle :: rest => cycle = c ∧ OnTime delay (c + 1) rest
  | c, .clear :: rest => OnTime delay c rest

/-- Takes among the calls. -/
def takes (calls : List Call) : Nat :=
  calls.countP fun
    | .take _ => true
    | _ => false

theorem add_takes_take (c cycle : Nat) (calls : List Call) : c + takes (.take cycle :: calls) = c + 1 + takes calls := by
  simp only [takes, List.countP_cons, if_true]
  omega

theorem onTime_append {delay c : Nat} {calls rest : List Call} (h : OnTime delay c (calls ++ rest)) :
    OnTime delay c calls ∧ OnTime delay (c + takes calls) rest := by
  induction calls generalizing c with
  | nil => exact ⟨trivial, h⟩
  | cons x calls ih =>
    cases x with
    | schedule due fact =>
      obtain ⟨hcalls, hrest⟩ := ih h.2
      exact ⟨⟨h.1, hcalls⟩, hrest⟩
    | scheduleAfter cycle fact =>
      obtain ⟨hcalls, hrest⟩ := ih h.2
      exact ⟨⟨h.1, hcalls⟩, hrest⟩
    | take cycle =>
      obtain ⟨hcalls, hrest⟩ := ih h.2
      rw [add_takes_take]
      exact ⟨⟨h.1, hcalls⟩, hrest⟩
    | clear => exact ih h

/-- Every call leaves one event, so a history can be cut at any of them. -/
theorem perform_split {r t : Resolver} {calls : List Call} {before after : List Event} {e : Event}
    (h : r.perform calls = .ok (before ++ e :: after, t)) :
    ∃ first c rest u v, calls = first ++ c :: rest ∧ r.perform first = .ok (before, u) ∧ u.call c = .ok (e, v) := by
  induction calls generalizing r before with
  | nil =>
    have hnil : [] = before ++ e :: after := congrArg Prod.fst (Except.ok.inj h)
    simp at hnil
  | cons c calls ih =>
    obtain ⟨x, u, later, hcall, hrest, hes⟩ := perform_cons.mp h
    cases before with
    | nil =>
      obtain ⟨rfl, rfl⟩ := List.cons.inj hes
      exact ⟨[], c, calls, r, u, rfl, rfl, hcall⟩
    | cons y before =>
      obtain ⟨rfl, rfl⟩ := List.cons.inj hes
      obtain ⟨first, d, rest, v, w, rfl, hfirst, hd⟩ := ih hrest
      exact ⟨c :: first, d, rest, v, w, rfl, perform_cons.mpr ⟨y, u, before, hcall, hfirst, rfl⟩, hd⟩

theorem sinceClear_append {es later : List Event} (h : .cleared ∉ later) :
    sinceClear (es ++ later) = sinceClear es ++ later := by
  induction later generalizing es with
  | nil => simp
  | cons e later ih =>
    have he : e ≠ .cleared := fun heq => h (heq ▸ List.mem_cons_self)
    have hlater : .cleared ∉ later := fun hm => h (List.mem_cons_of_mem _ hm)
    calc sinceClear (es ++ e :: later)
        = sinceClear (es ++ [e] ++ later) := by rw [List.append_cons]
      _ = sinceClear es ++ [e] ++ later := by rw [ih hlater, sinceClear_concat he]
      _ = sinceClear es ++ e :: later := (List.append_cons _ _ _).symm

/-- The queue before the take of cycle `c`, told by the history. -/
structure Punctual (delay c : Nat) (es : List Event) (r : Resolver) : Prop where
  ordered : Ordered r.queue
  delay_eq : r.delay = delay
  waiting : r.queue.Perm ((stored (sinceClear es)).filter fun x => c ≤ x.1)
  distinct : ((stored (sinceClear es)).map (·.1)).Nodup
  earlier : ∀ cycle answer gone, .taken cycle answer gone ∈ es → cycle < c

variable {delay c : Nat} {es : List Event} {r t : Resolver}

theorem punctual_nil (delay : Nat) : Punctual delay 0 [] { delay } :=
  ⟨List.Pairwise.nil, rfl, List.Perm.refl _, List.nodup_nil, by simp⟩

theorem Punctual.mem_queue (h : Punctual delay c es r) {x : Nat × Resolution} :
    x ∈ r.queue ↔ c ≤ x.1 ∧ x ∈ stored (sinceClear es) := by
  rw [h.waiting.mem_iff, List.mem_filter, decide_eq_true_iff, and_comm]

theorem Punctual.schedule (h : Punctual delay c es r) {due slot : Nat} {fact : Resolution} (hdue : c ≤ due)
    (hs : r.schedule due fact = .ok (slot, t)) : Punctual delay c (es ++ [.stored slot fact]) t := by
  have hdelay := (delay_schedule hs).trans h.delay_eq
  obtain ⟨after, hp, rfl⟩ := schedule_eq_ok.mp hs
  obtain ⟨hfree, hordered, _⟩ := place_firstFree h.ordered hp
  have hslot : c ≤ slot := Nat.le_trans hdue hfree.due_le
  refine ⟨hordered, hdelay, ?_, ?_, by simpa using h.earlier⟩
  · have hnew : (stored (sinceClear (es ++ [.stored slot fact]))).filter (fun x => c ≤ x.1) =
        (stored (sinceClear es)).filter (fun x => c ≤ x.1) ++ [(slot, fact)] := by
      rw [sinceClear_concat (by simp), stored_concat_stored, List.filter_append]
      simp [hslot]
    rw [hnew]
    exact (place_perm hp).trans ((h.waiting.cons _).trans (List.perm_append_singleton _ _).symm)
  · have hunused : slot ∉ (stored (sinceClear es)).map (·.1) := by
      intro hm
      obtain ⟨⟨_, f⟩, hx, rfl⟩ := List.mem_map.mp hm
      have hheld := (lookup_eq_some h.ordered).mpr (h.mem_queue.mpr ⟨hslot, hx⟩)
      rw [hfree.free] at hheld
      cases hheld
    rw [sinceClear_concat (by simp), stored_concat_stored, List.map_append, List.map_singleton]
    exact List.nodup_append_comm.mp (List.nodup_cons.mpr ⟨hunused, h.distinct⟩)

/-- The take of a cycle removes the fact of that slot, if there is one, and presents it. -/
theorem Punctual.taken (h : Punctual delay c es r) {e : Event} (hc : r.call (.take c) = .ok (e, t)) :
    ∃ answer gone, e = .taken c answer gone ∧ t.queue = r.queue.filter (fun x => c + 1 ≤ x.1) ∧
      (∀ x, x ∈ gone ↔ x.1 = c ∧ x ∈ stored (sinceClear es)) ∧
      (gone = [] ∧ answer = .idle ∨ gone = [(c, answer)]) := by
  have hmem := fun x => h.mem_queue (x := x)
  obtain ⟨ht, ⟨rfl, rfl, hlater⟩ | ⟨slot, fact, hd, rfl, hq⟩⟩ := call_take_cases h.ordered hc
  · refine ⟨.idle, [], rfl, ?_, ?_, Or.inl ⟨rfl, rfl⟩⟩
    · exact (List.filter_eq_self.mpr fun x hx => decide_eq_true (hlater x hx)).symm
    · intro x
      constructor
      · intro hx
        cases hx
      · rintro ⟨hx, hm⟩
        have hlt := hlater x ((hmem x).mpr ⟨by omega, hm⟩)
        omega
  · have hordered := h.ordered
    rw [hq] at hordered
    obtain ⟨hfirst, _⟩ := List.pairwise_cons.mp hordered
    have hhead := (hmem (slot, fact)).mp (by rw [hq]; exact List.mem_cons_self)
    obtain rfl : slot = c := Nat.le_antisymm hd hhead.1
    refine ⟨fact, [(slot, fact)], rfl, ?_, ?_, Or.inr rfl⟩
    · rw [hq, List.filter_cons_of_neg (by simp)]
      exact (List.filter_eq_self.mpr fun x hx => decide_eq_true (hfirst x hx)).symm
    · intro x
      rw [List.mem_singleton]
      constructor
      · rintro rfl
        exact ⟨rfl, hhead.2⟩
      · rintro ⟨hx, hm⟩
        have hin := (hmem x).mpr ⟨by omega, hm⟩
        rw [hq] at hin
        rcases List.mem_cons.mp hin with hx | hin
        · exact hx
        · have hlt : slot < x.1 := hfirst x hin
          omega

theorem Punctual.take (h : Punctual delay c es r) {e : Event} (hc : r.call (.take c) = .ok (e, t)) :
    Punctual delay (c + 1) (es ++ [e]) t := by
  have hdelay : t.delay = delay := by
    rw [(call_take_cases h.ordered hc).1, delay_take, h.delay_eq]
  obtain ⟨answer, gone, rfl, hqueue, _, _⟩ := h.taken hc
  have hstored : stored (sinceClear (es ++ [.taken c answer gone])) = stored (sinceClear es) := by
    rw [sinceClear_concat (by simp), stored_concat_taken]
  refine ⟨?_, hdelay, ?_, ?_, ?_⟩
  · rw [hqueue]
    exact h.ordered.filter _
  · have hlater : ((stored (sinceClear es)).filter fun x => c ≤ x.1).filter (fun x => c + 1 ≤ x.1) =
        (stored (sinceClear es)).filter fun x => c + 1 ≤ x.1 := by
      rw [List.filter_filter]
      apply List.filter_congr
      intro x _
      rw [← Bool.decide_and, decide_eq_decide]
      omega
    rw [hqueue, hstored, ← hlater]
    exact h.waiting.filter _
  · rw [hstored]
    exact h.distinct
  · intro cycle a g hm
    rcases List.mem_append.mp hm with hm | hm
    · exact Nat.lt_succ_of_lt (h.earlier cycle a g hm)
    · cases List.mem_singleton.mp hm
      exact Nat.lt_succ_self c

theorem Punctual.perform {calls : List Call} {later : List Event} (h : Punctual delay c es r) (htime : OnTime delay c calls)
    (hp : r.perform calls = .ok (later, t)) : Punctual delay (c + takes calls) (es ++ later) t := by
  induction calls generalizing c r es later with
  | nil =>
    cases hp
    rw [List.append_nil]
    exact h
  | cons call rest ih =>
    obtain ⟨e, u, later, hcall, hrest, rfl⟩ := perform_cons.mp hp
    rw [List.append_cons]
    cases call with
    | schedule due fact =>
      obtain ⟨⟨slot, v⟩, hs, hcall⟩ := bind_eq_ok.mp hcall
      cases hcall
      exact ih (h.schedule htime.1 hs) htime.2 hrest
    | scheduleAfter cycle fact =>
      obtain ⟨⟨slot, v⟩, hs, hcall⟩ := bind_eq_ok.mp hcall
      cases hcall
      rw [scheduleAfter_eq, h.delay_eq] at hs
      split at hs
      · exact ih (h.schedule htime.1 hs) htime.2 hrest
      · cases hs
    | take cycle =>
      obtain ⟨rfl, hlater⟩ := htime
      rw [add_takes_take]
      exact ih (h.take hcall) hlater hrest
    | clear =>
      cases hcall
      have hclear : Punctual delay c (es ++ [.cleared]) r.clear := by
        refine ⟨List.Pairwise.nil, h.delay_eq, ?_, ?_, by simpa using h.earlier⟩
        · rw [sinceClear_cleared]
          exact List.Perm.refl _
        · rw [sinceClear_cleared]
          exact List.nodup_nil
      exact ih hclear htime hrest

theorem exists_taken {calls : List Call} {k : Nat} (htime : OnTime delay c calls)
    (hp : r.perform calls = .ok (es, t)) (hk : c ≤ k) (hlt : k < c + takes calls) :
    ∃ answer gone, .taken k answer gone ∈ es := by
  induction calls generalizing c r es with
  | nil =>
    simp only [takes, List.countP_nil] at hlt
    omega
  | cons call rest ih =>
    obtain ⟨e, u, later, hcall, hrest, rfl⟩ := perform_cons.mp hp
    have htail : ∀ {d : Nat}, OnTime delay d rest → d ≤ k → k < d + takes rest →
        ∃ answer gone, .taken k answer gone ∈ e :: later := by
      intro d htime hd hlt
      obtain ⟨answer, gone, hm⟩ := ih htime hrest hd hlt
      exact ⟨answer, gone, List.mem_cons_of_mem _ hm⟩
    cases call with
    | schedule due fact => exact htail htime.2 hk hlt
    | scheduleAfter cycle fact => exact htail htime.2 hk hlt
    | clear => exact htail htime hk hlt
    | take cycle =>
      obtain ⟨rfl, hlater⟩ := htime
      rw [add_takes_take] at hlt
      by_cases he : k = cycle
      · subst he
        cases hcall
        exact ⟨_, _, List.mem_cons_self⟩
      · exact htail hlater (by omega) hlt

/-- The queue as it stands before any event of a history on time. -/
theorem punctual_before {calls : List Call} {before after : List Event} {e : Event} (htime : OnTime delay 0 calls)
    (h : perform { delay } calls = .ok (before ++ e :: after, r)) :
    ∃ c u v call, Punctual delay c before u ∧ u.call call = .ok (e, v) ∧ OnTime delay c [call] := by
  obtain ⟨first, call, rest, u, v, rfl, hfirst, hcall⟩ := perform_split h
  obtain ⟨hearly, hlate⟩ := onTime_append htime
  have hu := (punctual_nil delay).perform hearly hfirst
  have hnow : OnTime delay (0 + takes first) ([call] ++ rest) := hlate
  exact ⟨_, u, v, call, hu, hcall, (onTime_append hnow).1⟩

/-- Among the events of `n` cycles, each fact is presented on the cycle of its slot and on no other, unless the queue is cleared
before that. -/
structure Presenting (n : Nat) (es : List Event) : Prop where
  follows : ∀ {before after : List Event} {slot : Nat} {fact : Resolution}, es = before ++ .stored slot fact :: after →
    (∀ cycle answer gone, .taken cycle answer gone ∈ before → cycle < slot) ∧
      (slot < n → ∃ answer gone, .taken slot answer gone ∈ after)
  presents : ∀ {before mid after : List Event} {slot cycle : Nat} {fact answer : Resolution}
    {gone : List (Nat × Resolution)},
    es = before ++ .stored slot fact :: (mid ++ .taken cycle answer gone :: after) → .cleared ∉ mid →
    (cycle = slot → answer = fact ∧ gone = [(slot, fact)]) ∧ (cycle ≠ slot → ∀ x ∈ gone, x.1 ≠ slot)
  removes : ∀ {before after : List Event} {cycle : Nat} {answer : Resolution} {gone : List (Nat × Resolution)},
    es = before ++ .taken cycle answer gone :: after →
    (∀ x ∈ gone, x.1 = cycle ∧ x ∈ stored (sinceClear before)) ∧
      (gone = [] ↔ ∀ fact, (cycle, fact) ∉ stored (sinceClear before))
  distinct : ((stored (sinceClear es)).map (·.1)).Nodup

section OnTime
variable {calls : List Call} {before after : List Event}

theorem earlier_of_stored {slot : Nat} {fact : Resolution} (htime : OnTime delay 0 calls)
    (h : perform { delay } calls = .ok (before ++ .stored slot fact :: after, r)) :
    ∀ cycle answer gone, .taken cycle answer gone ∈ before → cycle < slot := by
  obtain ⟨c, u, v, call, hu, hcall, hcallTime⟩ := punctual_before htime h
  have hlater : ∀ {due : Nat}, c ≤ due → u.schedule due fact = .ok (slot, v) → c ≤ slot := by
    intro due hdue hs
    obtain ⟨_, hp, _⟩ := schedule_eq_ok.mp hs
    exact Nat.le_trans hdue (place_firstFree hu.ordered hp).1.due_le
  have hslot : c ≤ slot := by
    cases call with
    | schedule due f =>
      obtain ⟨⟨s, w⟩, hs, hcall⟩ := bind_eq_ok.mp hcall
      cases hcall
      exact hlater hcallTime.1 hs
    | scheduleAfter cycle f =>
      obtain ⟨⟨s, w⟩, hs, hcall⟩ := bind_eq_ok.mp hcall
      cases hcall
      rw [scheduleAfter_eq, hu.delay_eq] at hs
      split at hs
      · exact hlater hcallTime.1 hs
      · cases hs
    | take cycle => cases hcall
    | clear => cases hcall
  intro cycle answer gone hm
  exact Nat.lt_of_lt_of_le (hu.earlier cycle answer gone hm) hslot

theorem removed_of_taken {cycle : Nat} {answer : Resolution} {gone : List (Nat × Resolution)} (htime : OnTime delay 0 calls)
    (h : perform { delay } calls = .ok (before ++ .taken cycle answer gone :: after, r)) :
    (∀ x, x ∈ gone ↔ x.1 = cycle ∧ x ∈ stored (sinceClear before)) ∧
      (gone = [] ∧ answer = .idle ∨ gone = [(cycle, answer)]) := by
  obtain ⟨c, u, v, call, hu, hcall, hcallTime⟩ := punctual_before htime h
  cases call with
  | schedule due f =>
    obtain ⟨_, _, hcall⟩ := bind_eq_ok.mp hcall
    cases hcall
  | scheduleAfter cycle f =>
    obtain ⟨_, _, hcall⟩ := bind_eq_ok.mp hcall
    cases hcall
  | clear => cases hcall
  | take n =>
    obtain ⟨rfl, _⟩ := hcallTime
    obtain ⟨a, g, he, _, hmem, hgone⟩ := hu.taken hcall
    cases he
    exact ⟨hmem, hgone⟩

end OnTime

theorem perform_presenting {calls : List Call} (htime : OnTime delay 0 calls) (h : perform { delay } calls = .ok (es, r)) :
    Presenting (takes calls) es where
  follows := by
    rintro before after slot fact rfl
    have hearlier := earlier_of_stored htime h
    refine ⟨hearlier, ?_⟩
    intro hslot
    obtain ⟨answer, gone, hm⟩ := exists_taken htime h (Nat.zero_le slot) (by omega)
    rcases List.mem_append.mp hm with hm | hm
    · exact absurd (hearlier _ _ _ hm) (Nat.lt_irrefl slot)
    · rcases List.mem_cons.mp hm with he | hm
      · cases he
      · exact ⟨answer, gone, hm⟩
  presents := by
    rintro before mid after slot cycle fact answer gone rfl hmid
    rw [← List.cons_append, ← List.append_assoc] at h
    obtain ⟨hmem, hgone⟩ := removed_of_taken htime h
    constructor
    · rintro rfl
      have hkept : (cycle, fact) ∈ stored (sinceClear (before ++ .stored cycle fact :: mid)) := by
        rw [sinceClear_append (by simpa using hmid)]
        exact List.mem_filterMap.mpr ⟨.stored cycle fact, by simp, rfl⟩
      have hin := (hmem (cycle, fact)).mpr ⟨rfl, hkept⟩
      rcases hgone with ⟨rfl, _⟩ | rfl
      · cases hin
      · cases List.mem_singleton.mp hin
        exact ⟨rfl, rfl⟩
    · intro hne x hx
      rw [((hmem x).mp hx).1]
      exact hne
  removes := by
    rintro before after cycle answer gone rfl
    obtain ⟨hmem, _⟩ := removed_of_taken htime h
    refine ⟨fun x hx => (hmem x).mp hx, ?_⟩
    constructor
    · rintro rfl fact hfact
      cases (hmem (cycle, fact)).mpr ⟨rfl, hfact⟩
    · intro hnone
      rw [List.eq_nil_iff_forall_not_mem]
      rintro ⟨s, fact⟩ hx
      obtain ⟨rfl, hfact⟩ := (hmem (s, fact)).mp hx
      exact hnone fact hfact
  distinct := ((punctual_nil delay).perform htime h).distinct

/-- The second fact for cycle 1 slides to cycle 2, and so a third one, due on cycle 2, slides to cycle 3. A clear drops it; the
fact that then gets cycle 3 is the one presented. -/
theorem perform_presenting_slide :
    ∃ (calls : List Call) (es mid : List Event) (r : Resolver) (a b c d : Resolution),
      calls = [.schedule 1 a, .take 0, .schedule 1 b, .take 1, .schedule 2 c, .take 2, .clear, .scheduleAfter 2 d, .take 3] ∧
      OnTime 1 0 calls ∧ perform { delay := 1 } calls = .ok (es, r) ∧
      es = [.stored 1 a, .taken 0 .idle []] ++ .stored 2 b :: (mid ++ .taken 2 b [(2, b)] ::
        [.cleared, .stored 3 d, .taken 3 d [(3, d)]]) ∧
      .cleared ∉ mid ∧ b ≠ .idle ∧ Presenting 4 es := by
  let fact (a : Address) : Resolution := ⟨true, true, a, 64⟩
  let calls : List Call := [.schedule 1 (fact 4), .take 0, .schedule 1 (fact 8), .take 1, .schedule 2 (fact 12), .take 2,
    .clear, .scheduleAfter 2 (fact 16), .take 3]
  let mid : List Event := [.taken 1 (fact 4) [(1, fact 4)], .stored 3 (fact 12)]
  have htime : OnTime 1 0 calls := by simp [calls, OnTime]
  have hrun : perform { delay := 1 } calls =
      .ok ([.stored 1 (fact 4), .taken 0 .idle []] ++ .stored 2 (fact 8) :: (mid ++ .taken 2 (fact 8) [(2, fact 8)] ::
        [.cleared, .stored 3 (fact 16), .taken 3 (fact 16) [(3, fact 16)]]), { delay := 1 }) := rfl
  exact ⟨calls, _, mid, _, fact 4, fact 8, fact 12, fact 16, rfl, htime, hrun, rfl, by decide, by decide,
    perform_presenting htime hrun⟩

end FetchStage.Resolver
