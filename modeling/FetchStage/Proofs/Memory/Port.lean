import FetchStage.Memory.Port

/-! # Answers of the latency port

Whatever its timing, the port keeps its image, and an answer that is ready carries the word of the requested address. A
call starts one access at most. The count of accesses has no effect on the answers, and a request that is not asserted
forgets the access in flight.
-/
namespace FetchStage.LatencyPort
variable {p q : LatencyPort}

theorem image_start {a : Address} {f : InFlight} (h : p.start a = .ok (f, q)) : q.image = p.image := by
  obtain ⟨accesses, _, h⟩ := bind_eq_ok.mp h
  obtain ⟨⟨cycles, timing⟩, _, h⟩ := bind_eq_ok.mp h
  cases h
  rfl

/-- The access goes on as it is, or a new one starts. -/
theorem current_cases {a : Address} {f : InFlight} (h : p.current a = .ok (f, q)) :
    (p.inFlight = some f ∧ q = p) ∨ p.start a = .ok (f, q) := by
  unfold current at h
  cases hf : p.inFlight with
  | none =>
    rw [hf] at h
    exact Or.inr h
  | some g =>
    simp only [hf] at h
    split at h
    · cases h
      exact Or.inl ⟨rfl, rfl⟩
    · exact Or.inr h

theorem current_of_starts {a : Address} (h : ∀ f ∈ p.inFlight, f.address ≠ a) : p.current a = p.start a := by
  unfold current
  cases hf : p.inFlight with
  | none => rfl
  | some f => exact if_neg (h f hf)

theorem current_of_inFlight {f : InFlight} (h : p.inFlight = some f) : p.current f.address = .ok (f, p) := by
  unfold current
  rw [h]
  exact if_pos rfl

theorem image_current {a : Address} {f : InFlight} (h : p.current a = .ok (f, q)) : q.image = p.image := by
  obtain ⟨_, rfl⟩ | hs := current_cases h
  · rfl
  · exact image_start hs

theorem serves_of_respond {r : Request} {a : Response} (h : p.respond r = .ok (a, q)) :
    q.image = p.image ∧ (a.ready → a.data = p.image.read r.address) := by
  unfold respond at h
  split at h
  · obtain ⟨⟨access, u⟩, hc, h⟩ := bind_eq_ok.mp h
    have hi := image_current hc
    simp only at h
    split at h
    · cases h
      exact ⟨hi, fun _ => by rw [← hi]⟩
    · cases h
      exact ⟨hi, by simp⟩
  · cases h
    exact ⟨rfl, by simp⟩

theorem start_eq_ok {a : Address} {f : InFlight} (h : p.start a = .ok (f, q)) :
    ∃ cycles timing, p.timing.access a = .ok (cycles, timing) ∧ f = ⟨a, max cycles 1⟩ ∧
      q = { p with accesses := p.accesses + 1, timing } := by
  obtain ⟨accesses, haccesses, h⟩ := bind_eq_ok.mp h
  obtain ⟨rfl, _⟩ := Count.succ_eq_ok_iff.mp haccesses
  obtain ⟨⟨cycles, timing⟩, haccess, h⟩ := bind_eq_ok.mp h
  cases h
  exact ⟨cycles, timing, haccess, rfl, rfl⟩

theorem start_of_access {a : Address} {cycles : Nat} {timing : Timing} (hn : p.accesses + 1 < Count.limit)
    (h : p.timing.access a = .ok (cycles, timing)) :
    p.start a = .ok (⟨a, max cycles 1⟩, { p with accesses := p.accesses + 1, timing }) :=
  bind_eq_ok.mpr ⟨_, Count.succ_of_lt hn, bind_eq_ok.mpr ⟨_, h, rfl⟩⟩

/-- Of timing and count, a call changes nothing or what one new access changes. -/
theorem timing_respond {r : Request} {a : Response} (h : p.respond r = .ok (a, q)) :
    (q.timing = p.timing ∧ q.accesses = p.accesses) ∨
      ∃ cycles, p.timing.access r.address = .ok (cycles, q.timing) ∧ q.accesses = p.accesses + 1 := by
  unfold respond at h
  split at h
  · obtain ⟨⟨access, u⟩, hc, h⟩ := bind_eq_ok.mp h
    have hq : q.timing = u.timing ∧ q.accesses = u.accesses := by
      simp only at h
      split at h <;> cases h <;> exact ⟨rfl, rfl⟩
    rw [hq.1, hq.2]
    obtain ⟨_, rfl⟩ | hs := current_cases hc
    · exact Or.inl ⟨rfl, rfl⟩
    · obtain ⟨cycles, timing, haccess, _, rfl⟩ := start_eq_ok hs
      exact Or.inr ⟨cycles, haccess, rfl⟩
  · cases h
    exact Or.inl ⟨rfl, rfl⟩

theorem accesses_respond {r : Request} {a : Response} (h : p.respond r = .ok (a, q)) :
    q.accesses ≤ p.accesses + 1 := by
  obtain ⟨_, hkept⟩ | ⟨_, _, hmore⟩ := timing_respond h
  · omega
  · omega

/-- The ports answer the request alike: they differ in the count of accesses at most, or in an access that the request
drops. -/
structure Alike (r : Request) (p q : LatencyPort) : Prop where
  image : p.image = q.image
  timing : p.timing = q.timing
  inFlight : r.readEnable → p.inFlight = q.inFlight

section Alike
variable {r : Request} {u : LatencyPort} {f : InFlight}

theorem start_of_alike {a : Address} (h : p.Alike r q) (hn : q.accesses + 1 < Count.limit)
    (hp : p.start a = .ok (f, u)) : ∃ v, q.start a = .ok (f, v) ∧ u.image = v.image ∧ u.timing = v.timing := by
  obtain ⟨cycles, timing, haccess, rfl, rfl⟩ := start_eq_ok hp
  rw [h.timing] at haccess
  exact ⟨_, start_of_access hn haccess, h.image, rfl⟩

theorem current_of_alike (h : p.Alike r q) (hr : r.readEnable) (hn : q.accesses + 1 < Count.limit)
    (hp : p.current r.address = .ok (f, u)) :
    ∃ v, q.current r.address = .ok (f, v) ∧ u.image = v.image ∧ u.timing = v.timing := by
  unfold current at hp ⊢
  rw [← h.inFlight hr]
  cases hf : p.inFlight with
  | none =>
    rw [hf] at hp
    exact start_of_alike h hn hp
  | some g =>
    simp only [hf] at hp ⊢
    split at hp
    · rename_i hg
      cases hp
      exact ⟨q, if_pos hg, h.image, h.timing⟩
    · rename_i hg
      rw [if_neg hg]
      exact start_of_alike h hn hp

/-- Both give the same answer, and have the same access in flight afterwards. -/
theorem Alike.respond (h : p.Alike r q) {a : Response} (hn : q.accesses + 1 < Count.limit)
    (hp : p.respond r = .ok (a, u)) : ∃ v, q.respond r = .ok (a, v) ∧ ∀ next, u.Alike next v := by
  unfold LatencyPort.respond at hp ⊢
  cases hr : r.readEnable with
  | false =>
    simp only [hr, Bool.false_eq_true, if_false] at hp ⊢
    cases hp
    exact ⟨_, rfl, fun _ => ⟨h.image, h.timing, fun _ => rfl⟩⟩
  | true =>
    simp only [hr, if_true] at hp ⊢
    obtain ⟨⟨access, w⟩, hc, hp⟩ := bind_eq_ok.mp hp
    obtain ⟨v, hv, himage, htiming⟩ := current_of_alike h hr hn hc
    rw [hv]
    simp only [bind, Except.bind] at hp ⊢
    cases hk : access.remaining - 1 with
    | zero =>
      simp only [hk, himage] at hp ⊢
      cases hp
      exact ⟨_, rfl, fun _ => ⟨rfl, htiming, fun _ => rfl⟩⟩
    | succ n =>
      simp only [hk] at hp ⊢
      cases hp
      exact ⟨_, rfl, fun _ => ⟨himage, htiming, fun _ => rfl⟩⟩

end Alike

/-- An access with a fixed latency leaves the timing as it is. -/
theorem timing_respond_fixed {latency : Nat} (h : p.timing = .fixed latency) {r : Request} {a : Response}
    (hp : p.respond r = .ok (a, q)) : q.timing = .fixed latency := by
  obtain ⟨hkept, _⟩ | ⟨cycles, haccess, _⟩ := timing_respond hp
  · rw [hkept, h]
  · rw [h] at haccess
    exact (congrArg Prod.snd (Except.ok.inj haccess)).symm

end FetchStage.LatencyPort
