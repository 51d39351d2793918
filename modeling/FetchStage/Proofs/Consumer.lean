import FetchStage.Config.Basic
import Mathlib.Data.Nat.Periodic

/-! # Pacing of the consumer

What the consumer asks for repeats with its period, and its stalls repeat with their spacing. So a stretch of that length
holds as many of them wherever it starts, and it is enough to count from cycle zero: there the request is the first cycle and
the stalls are the last ones. Cycle zero is served, and so is every cycle at which the drive starts over.
-/
namespace FetchStage.Consumer
variable {c : Consumer} {d : Nat}

theorem consumes_add (h : c.period ∣ d) (n : Nat) : c.consumes (d + n) = c.consumes n := by
  obtain ⟨k, rfl⟩ := h
  rw [consumes, consumes, Nat.mul_add_mod]

theorem stalls_add (h : c.stallEvery = 0 ∨ c.stallEvery ∣ d) (n : Nat) : c.stalls (d + n) = c.stalls n := by
  unfold stalls
  rcases h with hzero | ⟨k, rfl⟩
  · rw [hzero]
    rfl
  · rw [Nat.mul_add_mod]

/-- The drive repeats after whole periods. -/
theorem drive_add (hp : c.period ∣ d) (hs : c.stallEvery = 0 ∨ c.stallEvery ∣ d) (n : Nat) :
    c.drive (d + n) = c.drive n := by
  rw [drive, drive, consumes_add hp, stalls_add hs]

theorem periodic_consumes (c : Consumer) : Function.Periodic (fun t => (c.consumes t : Prop)) c.period := by
  intro t
  simp only [Nat.add_comm t, consumes_add (Nat.dvd_refl c.period)]

theorem periodic_stalls (c : Consumer) : Function.Periodic (fun t => (c.stalls t : Prop)) c.stallEvery := by
  intro t
  simp only [Nat.add_comm t, stalls_add (Or.inr (Nat.dvd_refl c.stallEvery))]

theorem consumes_iff_dvd (hp : 0 < c.period) (t : Nat) : c.consumes t ↔ c.period ∣ t := by
  simp [consumes, Nat.pos_iff_ne_zero.mp hp, Nat.dvd_iff_mod_eq_zero]

theorem count_consumes (hp : 0 < c.period) : Nat.count (fun t => c.consumes t) c.period = 1 := by
  obtain ⟨k, hk⟩ : ∃ k, c.period = 1 + k := ⟨c.period - 1, by omega⟩
  have hlater : Nat.count (fun t => c.consumes (1 + t)) k = 0 := by
    apply Nat.count_of_forall_not
    intro t ht hc
    have hle := Nat.le_of_dvd (by omega) ((consumes_iff_dvd hp _).mp hc)
    omega
  have hfirst : c.consumes 0 := (consumes_iff_dvd hp 0).mpr (Nat.dvd_zero _)
  rw [hk, Nat.count_add, hlater]
  simp [Nat.count_succ, hfirst]

theorem stalls_iff_of_lt {t : Nat} (ht : t < c.stallEvery) : c.stalls t ↔ c.stallEvery - c.stallLength ≤ t := by
  rw [stalls, Nat.mod_eq_of_lt ht]
  simp only [Bool.and_eq_true, bne_iff_ne, decide_eq_true_eq]
  omega

theorem count_stalls (hl : c.stallLength ≤ c.stallEvery) :
    Nat.count (fun t => c.stalls t) c.stallEvery = c.stallLength := by
  have hsum : c.stallEvery = (c.stallEvery - c.stallLength) + c.stallLength := by omega
  have hearly : Nat.count (fun t => c.stalls t) (c.stallEvery - c.stallLength) = 0 := by
    apply Nat.count_of_forall_not
    intro t ht hs
    have hlate := (stalls_iff_of_lt (by omega)).mp hs
    omega
  have hlate : Nat.count (fun t => c.stalls (c.stallEvery - c.stallLength + t)) c.stallLength = c.stallLength := by
    apply Nat.count_of_forall
    intro t ht
    exact (stalls_iff_of_lt (by omega)).mpr (Nat.le_add_right _ _)
  calc Nat.count (fun t => c.stalls t) c.stallEvery
      = Nat.count (fun t => c.stalls t) ((c.stallEvery - c.stallLength) + c.stallLength) := by rw [← hsum]
    _ = c.stallLength := by rw [Nat.count_add, hearly, hlate, Nat.zero_add]

theorem stalls_of_stallEvery_zero (he : c.stallEvery = 0) (t : Nat) : c.stalls t = false := by
  simp [stalls, he]

theorem drive_zero (hp : 0 < c.period) (hl : 0 < c.stallEvery → c.stallLength < c.stallEvery) :
    c.drive 0 = ⟨true, false⟩ := by
  have hconsumes : c.consumes 0 = true := (consumes_iff_dvd hp 0).mpr (Nat.dvd_zero _)
  have hstalls : c.stalls 0 = false := by
    rcases Nat.eq_zero_or_pos c.stallEvery with he | he
    · exact stalls_of_stallEvery_zero he 0
    · have hshort := hl he
      rw [← Bool.not_eq_true, stalls_iff_of_lt he]
      omega
  rw [drive, hconsumes, hstalls]

/-- A stretch of `n` cycles reaches a multiple of `n`. -/
theorem exists_multiple {n : Nat} (hn : 0 < n) (start : Nat) : ∃ t, start ≤ t ∧ t < start + n ∧ n ∣ t := by
  have hsum := Nat.div_add_mod (start + n - 1) n
  have hlt := Nat.mod_lt (start + n - 1) hn
  exact ⟨n * ((start + n - 1) / n), by omega, by omega, Nat.dvd_mul_right _ _⟩

/-- A stretch of one period holds one request, and a stretch of one spacing holds the stalls of one window, wherever it
starts. Common multiples of both are served, so no stretch that reaches one goes without. -/
theorem drive_paced (config : Config) (h : config.validate = .ok ()) :
    let c := config.consumer
    (∀ start, ((Finset.Ico start (start + c.period)).filter fun t => (c.drive t).consume).card = 1) ∧
    (0 < c.stallEvery → ∀ start,
      ((Finset.Ico start (start + c.stallEvery)).filter fun t => (c.drive t).stall).card = c.stallLength) ∧
    (c.stallEvery = 0 → ∀ t, (c.drive t).stall = false) ∧
    (∀ t, c.period ∣ t → (0 < c.stallEvery → c.stallEvery ∣ t) → c.drive t = ⟨true, false⟩) ∧
    ∀ start, ∃ t, start ≤ t ∧ t < start + c.period * max c.stallEvery 1 ∧ c.drive t = ⟨true, false⟩ := by
  intro c
  have hvalid := Config.validate_eq_ok.mp h
  have hp : 0 < c.period := hvalid.period
  have hl : 0 < c.stallEvery → c.stallLength < c.stallEvery := hvalid.stallLength
  have hserved : ∀ t, c.period ∣ t → (0 < c.stallEvery → c.stallEvery ∣ t) → c.drive t = ⟨true, false⟩ := by
    intro t hperiod hwindow
    exact (drive_add hperiod ((Nat.eq_zero_or_pos c.stallEvery).imp_right hwindow) 0).trans (drive_zero hp hl)
  refine ⟨?_, ?_, fun he t => stalls_of_stallEvery_zero he t, hserved, ?_⟩
  · intro start
    exact (Nat.filter_Ico_card_eq_of_periodic start _ _ (periodic_consumes c)).trans (count_consumes hp)
  · intro he start
    exact (Nat.filter_Ico_card_eq_of_periodic start _ _ (periodic_stalls c)).trans (count_stalls (hl he).le)
  · intro start
    have hpos : 0 < c.period * max c.stallEvery 1 := Nat.mul_pos hp (by omega)
    obtain ⟨t, hle, hlt, hdvd⟩ := exists_multiple hpos start
    refine ⟨t, hle, hlt, hserved t ((Nat.dvd_mul_right _ _).trans hdvd) fun he => ?_⟩
    have hmax : max c.stallEvery 1 = c.stallEvery := by omega
    rw [hmax] at hdvd
    exact (Nat.dvd_mul_left _ _).trans hdvd

/-- Two stalls in every five cycles, counted across a window's end, and a request on every third cycle. -/
theorem drive_paced_across :
    ∃ config : Config, config.consumer = ⟨3, 5, 2⟩ ∧ config.validate = .ok () ∧
      ((Finset.Ico 4 7).filter fun t => (config.consumer.drive t).consume).card = 1 ∧
      ((Finset.Ico 4 9).filter fun t => (config.consumer.drive t).stall).card = 2 ∧
      config.consumer.drive 15 = ⟨true, false⟩ := by
  have hpaced := drive_paced { consumer := ⟨3, 5, 2⟩ } rfl
  exact ⟨_, rfl, rfl, hpaced.1 4, hpaced.2.1 (by decide) 4, hpaced.2.2.2.1 15 (by decide) (by decide)⟩

end FetchStage.Consumer
