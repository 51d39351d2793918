import FetchStage.Wave
import Mathlib.Data.List.Forall2

/-! # What a wave line tells

The numbers and flags in a line end where a character follows that is no digit, and an object ends with its brace. Two
lines that are equal therefore agree member by member, so a line tells the whole record of its cycle.
-/
namespace FetchStage

/-- No digit follows. -/
def Stops (s : List Char) : Prop := ∀ c ∈ s.head?, c.isDigit = false

/-- Two texts end at the same place wherever the same characters are read from both. -/
def Parts (x y : String) : Prop :=
  ∀ s t, Stops s → Stops t → x.toList ++ s = y.toList ++ t → x = y ∧ s = t

/-- A value can be told from its text, and the text from what follows it. -/
structure Tells {α : Type} (write : α → String) : Prop where
  parts (a b : α) : Parts (write a) (write b)
  inj {a b : α} : write a = write b ↔ a = b

section Values

theorem takeWhile_of_stops {s : List Char} (h : Stops s) : s.takeWhile Char.isDigit = [] := by
  cases s with
  | nil => rfl
  | cons c s => simp [h c rfl]

theorem takeWhile_repr_append {s : List Char} (n : Nat) (h : Stops s) :
    (n.repr.toList ++ s).takeWhile Char.isDigit = n.repr.toList := by
  rw [List.takeWhile_append_of_pos, takeWhile_of_stops h, List.append_nil]
  intro c hc
  rw [Nat.toList_repr] at hc
  exact Nat.isDigit_of_mem_toDigits (by decide) (by decide) hc

theorem tells_repr : Tells Nat.repr where
  parts m n s t hs ht h := by
    have hdigits : m.repr.toList = n.repr.toList := by
      rw [← takeWhile_repr_append m hs, h, takeWhile_repr_append n ht]
    rw [hdigits] at h
    exact ⟨String.toList_inj.mp hdigits, List.append_cancel_left h⟩
  inj {m n} := by
    constructor
    · intro h
      have hdigits := congrArg (fun x : String => Nat.ofDigitChars 10 x.toList 0) h
      simpa [Nat.ofDigitChars_toDigits] using hdigits
    · intro h
      rw [h]

theorem tells_wordNumber : Tells wordNumber where
  parts v w := tells_repr.parts v.toNat w.toNat
  inj := tells_repr.inj.trans BitVec.toNat_inj

theorem tells_flagText : Tells flagText where
  parts a b s t _ _ h := by
    cases a <;> cases b <;> simp [flagText] at h ⊢ <;> exact h
  inj {a b} := by cases a <;> cases b <;> simp [flagText]

end Values

section Objects
variable {x y : String} {xs ys : List String} {s t : List Char}

@[simp] theorem Parts.member (name : String) (h : Parts x y) : Parts (member name x) (member name y) := by
  intro s t hs ht htext
  simp only [FetchStage.member, String.toList_append, List.append_assoc, List.append_cancel_left_eq] at htext
  obtain ⟨rfl, hrest⟩ := h s t hs ht htext
  exact ⟨rfl, hrest⟩

@[simp] theorem member_inj {name : String} : member name x = member name y ↔ x = y := by
  simp [member]

theorem members_eq_of_append (h : List.Forall₂ Parts xs ys)
    (htext : [','].intercalate (xs.map String.toList) ++ '\x7d' :: s =
      [','].intercalate (ys.map String.toList) ++ '\x7d' :: t) : xs = ys ∧ s = t := by
  have hcomma : ∀ s, Stops (',' :: s) := by simp [Stops]
  have hbrace : ∀ s, Stops ('\x7d' :: s) := by simp [Stops]
  induction h with
  | nil => simpa using htext
  | cons hxy hrest ih =>
    cases hrest with
    | nil =>
      simp only [List.map_cons, List.map_nil, List.intercalate_singleton] at htext
      obtain ⟨rfl, hst⟩ := hxy _ _ (hbrace s) (hbrace t) htext
      exact ⟨rfl, (List.cons.inj hst).2⟩
    | cons hnext hrest =>
      simp only [List.map_cons, List.intercalate_cons_cons, List.append_assoc, List.singleton_append] at htext ih
      obtain ⟨rfl, hst⟩ := hxy _ _ (hcomma _) (hcomma _) htext
      obtain ⟨hrest, hst⟩ := ih (List.cons.inj hst).2
      exact ⟨by rw [hrest], hst⟩

/-- An object ends with its brace, whatever follows. -/
theorem members_eq_of_object (h : List.Forall₂ Parts xs ys)
    (htext : (object xs).toList ++ s = (object ys).toList ++ t) : xs = ys ∧ s = t := by
  apply members_eq_of_append h
  simpa [object, String.toList_intercalate] using htext

theorem tells_object {α : Type} {members : α → List String} (h : ∀ a b, List.Forall₂ Parts (members a) (members b))
    (hinj : ∀ a b, members a = members b → a = b) : Tells fun a => object (members a) where
  parts a b s t _ _ htext := by
    obtain ⟨hmembers, hst⟩ := members_eq_of_object (h a b) htext
    exact ⟨congrArg object hmembers, hst⟩
  inj {a b} := by
    constructor
    · intro htext
      apply hinj
      exact (members_eq_of_object (s := []) (t := []) (h a b) (by rw [htext])).1
    · intro hab
      rw [hab]

end Objects

section Signals

theorem Request.tells_json : Tells Request.json := by
  apply tells_object
  · simp [tells_wordNumber.parts, tells_flagText.parts]
  · rintro ⟨⟩ ⟨⟩
    simp [tells_wordNumber.inj, tells_flagText.inj]

theorem Response.tells_json : Tells Response.json := by
  apply tells_object
  · simp [tells_wordNumber.parts, tells_flagText.parts]
  · rintro ⟨⟩ ⟨⟩
    simp [tells_wordNumber.inj, tells_flagText.inj]

theorem Resolution.tells_json : Tells Resolution.json := by
  apply tells_object
  · simp [tells_wordNumber.parts, tells_flagText.parts]
  · rintro ⟨⟩ ⟨⟩
    simp [tells_wordNumber.inj, tells_flagText.inj]

theorem Prediction.tells_json : Tells Prediction.json := by
  apply tells_object
  · simp [tells_wordNumber.parts, tells_flagText.parts]
  · rintro ⟨⟩ ⟨⟩
    simp [tells_wordNumber.inj, tells_flagText.inj]

theorem FetchState.tells_json : Tells FetchState.json := by
  apply tells_object
  · simp [tells_wordNumber.parts, tells_flagText.parts]
  · rintro ⟨⟩ ⟨⟩
    simp [tells_wordNumber.inj, tells_flagText.inj]

theorem Inputs.tells_json : Tells Inputs.json := by
  apply tells_object
  · simp [tells_flagText.parts, Response.tells_json.parts, Resolution.tells_json.parts]
  · rintro ⟨⟩ ⟨⟩
    simp [tells_flagText.inj, Response.tells_json.inj, Resolution.tells_json.inj]

theorem Outputs.tells_json : Tells Outputs.json := by
  apply tells_object
  · simp [tells_repr.parts, tells_wordNumber.parts, tells_flagText.parts, Request.tells_json.parts,
      Prediction.tells_json.parts, FetchState.tells_json.parts]
  · rintro ⟨⟩ ⟨⟩
    simp [tells_repr.inj, tells_wordNumber.inj, tells_flagText.inj, Request.tells_json.inj,
      Prediction.tells_json.inj, FetchState.tells_json.inj]

end Signals

namespace CycleRecord

theorem eq_of_waveLine_append {r q : CycleRecord} {s t : List Char}
    (h : r.waveLine.toList ++ s = q.waveLine.toList ++ t) : r = q ∧ s = t := by
  rw [waveLine, waveLine, String.toList_append, String.toList_append, List.append_assoc, List.append_assoc] at h
  obtain ⟨hmembers, hst⟩ := members_eq_of_object
    (by simp [tells_repr.parts, Inputs.tells_json.parts, Outputs.tells_json.parts]) h
  refine ⟨?_, List.append_cancel_left hst⟩
  cases r
  cases q
  simpa [tells_repr.inj, Inputs.tells_json.inj, Outputs.tells_json.inj] using hmembers

/-- A line tells the record of its cycle. -/
theorem waveLine_inj {r q : CycleRecord} : r.waveLine = q.waveLine ↔ r = q := by
  constructor
  · intro h
    exact (eq_of_waveLine_append (s := []) (t := []) (by rw [h])).1
  · intro h
    rw [h]

/-- All lines together tell all cycles. -/
theorem join_waveLine_inj {rs qs : List CycleRecord} :
    String.join (rs.map waveLine) = String.join (qs.map waveLine) ↔ rs = qs := by
  constructor
  · intro h
    replace h := congrArg String.toList h
    induction rs generalizing qs with
    | nil =>
      cases qs with
      | nil => rfl
      | cons q qs => simp [waveLine] at h
    | cons r rs ih =>
      cases qs with
      | nil => simp [waveLine] at h
      | cons q qs =>
        simp only [List.map_cons, String.join_cons, String.toList_append] at h
        obtain ⟨rfl, hrest⟩ := eq_of_waveLine_append h
        rw [ih hrest]
  · intro h
    rw [h]

end CycleRecord

end FetchStage
