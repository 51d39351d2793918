import FetchStage.Text.Digits
import Mathlib.Algebra.Group.Nat.Defs
import Mathlib.Data.List.Induction

/-! # Digits written and read back

Hexadecimal digits of fixed width are read as the number they were written from. A text of capital digits is what its
own value is written as, so at one width number and text determine each other. Read in any width, zeros at the end stand for
themselves, and zeros at the front for nothing.
-/
namespace FetchStage.Text

theorem digitIn_digitChar (upper : Bool) {d : Nat} (h : d < 16) : digitIn 16 (digitChar upper d) = some d := by
  revert d
  cases upper <;> decide

@[simp] theorem length_hexDigits (upper : Bool) (width n : Nat) : (hexDigits upper width n).length = width := by
  induction width generalizing n with
  | zero => rfl
  | succ width ih => simp [hexDigits, ih]

theorem mem_hexDigits {upper : Bool} {width n : Nat} {c : Char} (h : c ∈ hexDigits upper width n) :
    ∃ d < 16, c = digitChar upper d := by
  induction width generalizing n with
  | zero => simp [hexDigits] at h
  | succ width ih =>
    rcases List.mem_append.mp h with h | h
    · exact ih h
    · exact ⟨n % 16, Nat.mod_lt _ (by decide), List.mem_singleton.mp h⟩

theorem readDigits_append (base limit value : Nat) (cs ds : List Char) :
    readDigits base limit value (cs ++ ds) = readDigits base limit value cs >>= (readDigits base limit · ds) := by
  induction cs generalizing value with
  | nil => rfl
  | cons c cs ih =>
    simp only [List.cons_append, readDigits]
    cases digitIn base c with
    | none => rfl
    | some d =>
      simp only
      split
      · exact ih _
      · rfl

theorem readDigits_hexDigits (upper : Bool) {limit width n : Nat} (h : n < 16 ^ width) (hl : n < limit) :
    readDigits 16 limit 0 (hexDigits upper width n) = .ok n := by
  induction width generalizing n with
  | zero =>
    have hn : n = 0 := by simpa using h
    rw [hn]
    rfl
  | succ width ih =>
    have hhigh : n / 16 < 16 ^ width := by
      rw [Nat.pow_succ] at h
      omega
    have hsum : n / 16 * 16 + n % 16 = n := by omega
    rw [hexDigits, readDigits_append, ih hhigh (by omega)]
    change readDigits 16 limit (n / 16) [digitChar upper (n % 16)] = .ok n
    simp only [readDigits, digitIn_digitChar upper (Nat.mod_lt n (by decide : 0 < 16)), hsum, if_pos hl]

theorem digitChar_ne_plus (upper : Bool) {d : Nat} (h : d < 16) : digitChar upper d ≠ '+' := by
  revert d
  cases upper <;> decide

theorem readUnsigned_of_ne_plus {base limit : Nat} {c : Char} {cs : List Char} (h : c ≠ '+') :
    readUnsigned base limit (c :: cs) = readDigits base limit 0 (c :: cs) := by
  unfold readUnsigned
  split
  · rename_i hcons
    cases hcons
  · rename_i hcons
    cases hcons
    exact absurd rfl h
  · rename_i hcons
    cases hcons
    rfl

/-- Digits carry no sign, so they are read from the first on. -/
theorem readUnsigned_hexDigits (upper : Bool) {limit width n : Nat} (hw : 0 < width) (h : n < 16 ^ width)
    (hl : n < limit) : readUnsigned 16 limit (hexDigits upper width n) = .ok n := by
  obtain ⟨c, cs, hcons⟩ : ∃ c cs, hexDigits upper width n = c :: cs :=
    List.exists_cons_of_length_pos (by rwa [length_hexDigits])
  obtain ⟨d, hd, rfl⟩ := mem_hexDigits (by rw [hcons]; exact List.mem_cons_self : c ∈ hexDigits upper width n)
  rw [hcons, readUnsigned_of_ne_plus (digitChar_ne_plus upper hd), ← hcons]
  exact readDigits_hexDigits upper h hl

/-- The sixteen capital digits, in order of value. -/
def capitals : List Char := "0123456789ABCDEF".toList

/-- The number that capital digits stand for. -/
def capitalValue (cs : List Char) : Nat := cs.foldl (fun n c => 16 * n + capitals.idxOf c) 0

theorem digitChar_idxOf {c : Char} (h : c ∈ capitals) :
    capitals.idxOf c < 16 ∧ digitChar true (capitals.idxOf c) = c := by
  have hall : capitals.all fun c => decide (capitals.idxOf c < 16 ∧ digitChar true (capitals.idxOf c) = c) := by decide
  exact of_decide_eq_true (List.all_eq_true.mp hall c h)

theorem mem_capitals_of_all {cs : List Char} (h : cs.all capitals.contains) : ∀ c ∈ cs, c ∈ capitals := by
  intro c hc
  exact List.contains_iff_mem.mp (List.all_eq_true.mp h c hc)

theorem digitChar_mem_capitals {d : Nat} (h : d < 16) : digitChar true d ∈ capitals := by
  revert d
  decide

theorem capitalValue_concat (cs : List Char) (c : Char) :
    capitalValue (cs ++ [c]) = 16 * capitalValue cs + capitals.idxOf c := by
  simp [capitalValue]

theorem idxOf_digitChar {d : Nat} (h : d < 16) : capitals.idxOf (digitChar true d) = d := by
  revert d
  decide

theorem capitalValue_hexDigits {width n : Nat} (h : n < 16 ^ width) : capitalValue (hexDigits true width n) = n := by
  induction width generalizing n with
  | zero =>
    have hn : n = 0 := by simpa using h
    rw [hn]
    rfl
  | succ width ih =>
    have hhigh : n / 16 < 16 ^ width := by
      rw [Nat.pow_succ] at h
      omega
    rw [hexDigits, capitalValue_concat, ih hhigh, idxOf_digitChar (Nat.mod_lt _ (by decide))]
    omega

theorem hexDigits_capitalValue {cs : List Char} (h : ∀ c ∈ cs, c ∈ capitals) :
    hexDigits true cs.length (capitalValue cs) = cs := by
  induction cs using List.reverseRecOn with
  | nil => rfl
  | append_singleton cs c ih =>
    obtain ⟨hlt, hc⟩ := digitChar_idxOf (h c (by simp))
    have hhigh : (16 * capitalValue cs + capitals.idxOf c) / 16 = capitalValue cs := by omega
    have hlow : (16 * capitalValue cs + capitals.idxOf c) % 16 = capitals.idxOf c := by omega
    rw [List.length_append, List.length_singleton, hexDigits, capitalValue_concat, hhigh, hlow, hc,
      ih fun x hx => h x (List.mem_append_left _ hx)]

section Zeros
variable {base limit value n : Nat} {cs : List Char} {c : Char}

theorem readDigits_concat :
    readDigits base limit value (cs ++ [c]) = .ok n ↔
      ∃ m d, readDigits base limit value cs = .ok m ∧ digitIn base c = some d ∧ n = m * base + d ∧ n < limit := by
  rw [readDigits_append, bind_eq_ok]
  constructor
  · rintro ⟨m, hm, h⟩
    simp only [readDigits] at h
    cases hd : digitIn base c with
    | none =>
      rw [hd] at h
      cases h
    | some d =>
      simp only [hd] at h
      split at h
      · rename_i hlt
        cases h
        exact ⟨m, d, hm, rfl, rfl, hlt⟩
      · cases h
  · rintro ⟨m, d, hm, hd, rfl, hlt⟩
    exact ⟨m, hm, by simp only [readDigits, hd, if_pos hlt]⟩

theorem digitIn_lt {d : Nat} (h : digitIn base c = some d) : d < base :=
  of_decide_eq_true (Option.filter_eq_some_iff.mp h).2

theorem toNat_eq_of_digitValue {d : Nat} (h : digitValue c = some d) :
    c.toNat = '0'.toNat + d ∧ d < 10 ∨ 10 ≤ d ∧ (c.toNat = 'a'.toNat + (d - 10) ∨ c.toNat = 'A'.toNat + (d - 10)) := by
  unfold digitValue at h
  simp only at h
  split at h
  · rename_i hc
    have hlow : '0'.toNat ≤ c.toNat := hc.1
    have hhigh : c.toNat ≤ '0'.toNat + 9 := hc.2
    have hd := Option.some.inj h
    omega
  · split at h
    · rename_i hc
      have hlow : 'a'.toNat ≤ c.toNat := hc.1
      have hd := Option.some.inj h
      omega
    · split at h
      · rename_i hc
        have hlow : 'A'.toNat ≤ c.toNat := hc.1
        have hd := Option.some.inj h
        omega
      · cases h

/-- A digit is read from the characters that it is written as. -/
theorem digitChar_of_digitIn {d : Nat} (h : digitIn base c = some d) : c = digitChar false d ∨ c = digitChar true d := by
  have hchar : ∀ n, c.toNat = n → c = Char.ofNat n := by
    rintro _ rfl
    exact (Char.ofNat_toNat c).symm
  unfold digitChar
  rcases toNat_eq_of_digitValue (Option.filter_eq_some_iff.mp h).1 with ⟨hc, hd⟩ | ⟨hd, hc | hc⟩
  · exact Or.inl (by simpa [hd] using hchar _ hc)
  · exact Or.inl (by simpa [Nat.not_lt.mpr hd] using hchar _ hc)
  · exact Or.inr (by simpa [Nat.not_lt.mpr hd] using hchar _ hc)

/-- Below ten there is one digit of each value. -/
theorem eq_digitChar {d : Nat} (h : digitIn base c = some d) (hd : d < 10) : c = digitChar false d := by
  have hcase : digitChar true d = digitChar false d := by simp [digitChar, hd]
  rcases digitChar_of_digitIn h with hc | hc
  · exact hc
  · exact hc.trans hcase

theorem readDigits_zeros (h : 0 < limit) (zeros : Nat) :
    readDigits 16 limit 0 (List.replicate zeros '0') = .ok 0 := by
  induction zeros with
  | zero => rfl
  | succ zeros ih =>
    rw [List.replicate_succ']
    exact readDigits_concat.mpr ⟨0, 0, ih, rfl, rfl, h⟩

/-- Nothing but zeros is read as zero. -/
theorem eq_zeros_of_readDigits (h : readDigits 16 limit 0 cs = .ok 0) : cs = List.replicate cs.length '0' := by
  induction cs using List.reverseRecOn with
  | nil => rfl
  | append_singleton cs c ih =>
    obtain ⟨m, d, hm, hd, hsum, _⟩ := readDigits_concat.mp h
    have hm0 : m = 0 := by omega
    have hd0 : d = 0 := by omega
    subst hm0
    subst hd0
    have hc : c = '0' := eq_digitChar hd (by decide)
    rw [List.length_append, List.length_singleton, List.replicate_succ', ← ih hm, hc]

/-- A power of sixteen shows as zeros at the end. -/
theorem exists_zeros_of_readDigits {m k : Nat} (hm : 0 < m) (h : readDigits 16 limit 0 cs = .ok (m * 16 ^ k)) :
    ∃ ds, cs = ds ++ List.replicate k '0' ∧ readDigits 16 limit 0 ds = .ok m := by
  induction k generalizing cs with
  | zero => exact ⟨cs, by simp, by simpa using h⟩
  | succ k ih =>
    have hpos : 0 < m * 16 ^ k := Nat.mul_pos hm (Nat.pow_pos (by decide))
    cases cs using List.reverseRecOn with
    | nil =>
      have hzero : 0 = m * 16 ^ (k + 1) := Except.ok.inj h
      rw [Nat.pow_succ, ← Nat.mul_assoc] at hzero
      omega
    | append_singleton ds c =>
      obtain ⟨high, d, hhigh, hd, hsum, _⟩ := readDigits_concat.mp h
      have hlt := digitIn_lt hd
      rw [Nat.pow_succ, ← Nat.mul_assoc] at hsum
      have hd0 : d = 0 := by omega
      have hhigh0 : high = m * 16 ^ k := by omega
      subst hd0
      subst hhigh0
      obtain ⟨es, rfl, hes⟩ := ih hhigh
      have hc : c = '0' := eq_digitChar hd (by decide)
      exact ⟨es, by rw [hc, List.replicate_succ', List.append_assoc], hes⟩

end Zeros

end FetchStage.Text
