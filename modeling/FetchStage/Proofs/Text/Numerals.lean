import FetchStage.Proofs.Text.Signed

/-! # Numerals

What the readers accept, told from the writing side: a digit is a character that the digit is written as, in either letter
case, and a numeral grows by one digit at its end. A reader accepts the numerals of its base whose value is below the limit,
so a text is the numeral of one number only.
-/
namespace FetchStage.Text

/-- Digit `d` of the base, in either letter case. -/
def IsDigit (base : Nat) (c : Char) (d : Nat) : Prop := d < base ∧ (c = digitChar false d ∨ c = digitChar true d)

inductive Numeral (base : Nat) : List Char → Nat → Prop
  | digit {c : Char} {d : Nat} : IsDigit base c d → Numeral base [c] d
  | append {cs : List Char} {n : Nat} {c : Char} {d : Nat} :
    Numeral base cs n → IsDigit base c d → Numeral base (cs ++ [c]) (n * base + d)

/-- A numeral with or without a sign. -/
inductive SignedNumeral (base : Nat) : List Char → Int → Prop
  | plain {cs : List Char} {n : Nat} : Numeral base cs n → SignedNumeral base cs n
  | plus {cs : List Char} {n : Nat} : Numeral base cs n → SignedNumeral base ('+' :: cs) n
  | minus {cs : List Char} {n : Nat} : Numeral base cs n → SignedNumeral base ('-' :: cs) (-n)

variable {base limit n : Nat} {cs : List Char} {c : Char} {d : Nat}

theorem digitIn_eq_some (hbase : base ≤ 16) : digitIn base c = some d ↔ IsDigit base c d := by
  constructor
  · intro h
    exact ⟨digitIn_lt h, digitChar_of_digitIn h⟩
  · rintro ⟨hd, hc⟩
    have hvalue : ∀ upper, ∀ d < 16, digitValue (digitChar upper d) = some d := by decide
    have hc : digitValue c = some d := by
      rcases hc with rfl | rfl
      · exact hvalue false d (by omega)
      · exact hvalue true d (by omega)
    simp [digitIn, hc, hd]

theorem Numeral.ne_nil (h : Numeral base cs n) : cs ≠ [] := by
  cases h <;> simp

theorem Numeral.mem_digit (h : Numeral base cs n) (hc : c ∈ cs) : ∃ d, IsDigit base c d := by
  induction h with
  | digit hd =>
    cases List.mem_singleton.mp hc
    exact ⟨_, hd⟩
  | append _ hd ih =>
    rcases List.mem_append.mp hc with hc | hc
    · exact ih hc
    · cases List.mem_singleton.mp hc
      exact ⟨_, hd⟩

theorem readMagnitude_numeral (hpos : 0 < base) (hbase : base ≤ 16) :
    readMagnitude base limit cs = .ok n ↔ Numeral base cs n ∧ n < limit := by
  rw [readMagnitude_eq_ok]
  constructor
  · rintro ⟨hne, h⟩
    induction cs using List.reverseRecOn generalizing n with
    | nil => exact absurd rfl hne
    | append_singleton cs c ih =>
      obtain ⟨m, d, hm, hd, rfl, hlt⟩ := readDigits_concat.mp h
      have hdigit := (digitIn_eq_some hbase).mp hd
      refine ⟨?_, hlt⟩
      by_cases hcs : cs = []
      · subst hcs
        cases hm
        simpa using Numeral.digit hdigit
      · exact .append (ih hcs hm).1 hdigit
  · rintro ⟨h, hlt⟩
    refine ⟨h.ne_nil, ?_⟩
    induction h with
    | @digit c d hd =>
      change readDigits base limit 0 ([] ++ [c]) = .ok d
      exact readDigits_concat.mpr ⟨0, d, rfl, (digitIn_eq_some hbase).mpr hd, by simp, hlt⟩
    | @append cs n c d _ hd ih =>
      have hle : n ≤ n * base := Nat.le_mul_of_pos_right n hpos
      exact readDigits_concat.mpr ⟨_, _, ih (by omega), (digitIn_eq_some hbase).mpr hd, rfl, hlt⟩

theorem Numeral.unique {m : Nat} (hpos : 0 < base) (hbase : base ≤ 16) (hn : Numeral base cs n)
    (hm : Numeral base cs m) : n = m := by
  have hread : ∀ {k}, Numeral base cs k → k < n + m + 1 → readMagnitude base (n + m + 1) cs = .ok k := fun h hlt =>
    (readMagnitude_numeral hpos hbase).mpr ⟨h, hlt⟩
  exact Except.ok.inj ((hread hn (by omega)).symm.trans (hread hm (by omega)))

theorem Numeral.foldl_eq (hbase : base ≤ 16) (h : Numeral base cs n) :
    cs.foldl (fun m c => m * base + (digitIn base c).getD 0) 0 = n := by
  induction h with
  | digit hd => simp [(digitIn_eq_some hbase).mpr hd]
  | append _ hd ih => simp [ih, (digitIn_eq_some hbase).mpr hd]

/-- Digits are no signs. -/
theorem Numeral.cons_ne_sign (hbase : base ≤ 16) (h : Numeral base (c :: cs) n) : c ≠ '+' ∧ c ≠ '-' := by
  obtain ⟨d, hd, hc⟩ := h.mem_digit List.mem_cons_self
  have hsign : ∀ upper, ∀ d < 16, digitChar upper d ≠ '+' ∧ digitChar upper d ≠ '-' := by decide
  rcases hc with rfl | rfl
  · exact hsign false d (by omega)
  · exact hsign true d (by omega)

theorem not_numeral_hexMark {mark : Char} (hbase : base ≤ 16) (hm : mark = 'x' ∨ mark = 'X') :
    ¬Numeral base ('0' :: mark :: cs) n := by
  intro h
  obtain ⟨d, hd, hc⟩ := h.mem_digit (List.mem_cons_of_mem _ List.mem_cons_self)
  have hmark : ∀ upper, ∀ d < 16, digitChar upper d ≠ 'x' ∧ digitChar upper d ≠ 'X' := by decide
  rcases hc with rfl | rfl
  · exact hm.elim (hmark false d (by omega)).1 (hmark false d (by omega)).2
  · exact hm.elim (hmark true d (by omega)).1 (hmark true d (by omega)).2

theorem readUnsigned_numeral (hpos : 0 < base) (hbase : base ≤ 16) :
    readUnsigned base limit cs = .ok n ↔ n < limit ∧ (Numeral base cs n ∨ ∃ ds, cs = '+' :: ds ∧ Numeral base ds n) := by
  constructor
  · intro h
    unfold readUnsigned at h
    split at h
    · cases h
    · rename_i ds
      obtain ⟨hds, hlt⟩ := (readMagnitude_numeral hpos hbase).mp h
      exact ⟨hlt, Or.inr ⟨ds, rfl, hds⟩⟩
    · obtain ⟨hcs, hlt⟩ := (readMagnitude_numeral hpos hbase).mp h
      exact ⟨hlt, Or.inl hcs⟩
  · rintro ⟨hlt, hn | ⟨ds, rfl, hn⟩⟩
    · obtain ⟨c, ds, rfl⟩ := List.exists_cons_of_ne_nil hn.ne_nil
      have hread := (readMagnitude_numeral hpos hbase).mpr ⟨hn, hlt⟩
      exact (readUnsigned_of_ne_plus (hn.cons_ne_sign hbase).1).trans hread
    · exact (readMagnitude_numeral hpos hbase).mpr ⟨hn, hlt⟩

theorem readSigned_numeral {i : Int} (hpos : 0 < base) (hbase : base ≤ 16) (h : readSigned base cs = some i) :
    SignedNumeral base cs i := by
  rcases readSigned_cases h with ⟨ds, n, rfl, hn, rfl⟩ | ⟨n, hn, rfl⟩
  · exact .minus ((readMagnitude_numeral hpos hbase).mp hn).1
  · rcases ((readUnsigned_numeral hpos hbase).mp hn).2 with hm | ⟨ds, rfl, hm⟩
    · exact .plain hm
    · exact .plus hm

theorem SignedNumeral.unique {i j : Int} (hpos : 0 < base) (hbase : base ≤ 16) (hi : SignedNumeral base cs i)
    (hj : SignedNumeral base cs j) : i = j := by
  cases hi with
  | plain hn =>
    cases hj with
    | plain hm => rw [hn.unique hpos hbase hm]
    | plus _ => exact absurd rfl (hn.cons_ne_sign hbase).1
    | minus _ => exact absurd rfl (hn.cons_ne_sign hbase).2
  | plus hn =>
    cases hj with
    | plain hm => exact absurd rfl (hm.cons_ne_sign hbase).1
    | plus hm => rw [hn.unique hpos hbase hm]
  | minus hn =>
    cases hj with
    | plain hm => exact absurd rfl (hm.cons_ne_sign hbase).2
    | minus hm => rw [hn.unique hpos hbase hm]

end FetchStage.Text
