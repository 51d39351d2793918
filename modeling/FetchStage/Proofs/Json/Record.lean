import FetchStage.Proofs.Json.Scalar
import FetchStage.Proofs.Json.Skim
import Mathlib.Data.List.Forall2
import Mathlib.Data.List.Nodup

/-! # Records in JSON text

An object whose known keys come once each gives the record that has their values and is as before in all else, in whatever
order the keys come and whatever stands under unknown ones. The reader keeps, member by member, that the wanted record differs
from the present one in no more than the members to come.
-/
namespace FetchStage.Json
open Text

/-- What a known key says of a record: its value there, and the texts of each value. -/
structure Attribute (ρ : Type) where
  name : String
  Value : Type
  get : ρ → Value
  Spells : Value → List Char → Prop

variable {ρ : Type} {fields : List (RecordField ρ)} {attributes : List (Attribute ρ)} {a : Attribute ρ}
  {m : Member} {ms : List Member} {start r s c : ρ}

section Members

/-- Known keys come once, each with a text of its kind; under unknown keys stands any value. -/
structure WellTyped (attributes : List (Attribute ρ)) (ms : List Member) : Prop where
  once : ∀ a ∈ attributes, (ms.map Prod.fst).count a.name.toList ≤ 1
  known : ∀ a ∈ attributes, ∀ value, (a.name.toList, value) ∈ ms → ∃ v, a.Spells v value
  unknown : ∀ m ∈ ms, (∀ a ∈ attributes, a.name.toList ≠ m.1) → IsValue m.2

/-- The record has the values of the given keys, and is as before in all else. -/
structure Replaces (attributes : List (Attribute ρ)) (start r : ρ) (ms : List Member) : Prop where
  given : ∀ a ∈ attributes, ∀ value, (a.name.toList, value) ∈ ms → a.Spells (a.get r) value
  kept : ∀ a ∈ attributes, a.name.toList ∉ ms.map Prod.fst → a.get r = a.get start

/-- An object that makes `r` of `start`. -/
def RecordText (attributes : List (Attribute ρ)) (start r : ρ) (cs : List Char) : Prop :=
  ∃ ms, ObjectText ms cs ∧ WellTyped attributes ms ∧ Replaces attributes start r ms

/-- No key that was read comes again. -/
def Fresh (attributes : List (Attribute ρ)) (seen : List String) (ms : List Member) : Prop :=
  ∀ a ∈ attributes, a.name ∈ seen → a.name.toList ∉ ms.map Prod.fst

theorem mem_cons_of_key_eq (hkey : a.name.toList = m.1) : (a.name.toList, m.2) ∈ m :: ms := by
  rw [hkey]
  exact List.mem_cons_self

theorem WellTyped.tail (h : WellTyped attributes (m :: ms)) : WellTyped attributes ms where
  once b hb := Nat.le_trans (List.count_le_count_cons ..) (h.once b hb)
  known b hb value hm := h.known b hb value (List.mem_cons_of_mem _ hm)
  unknown n hn := h.unknown n (List.mem_cons_of_mem _ hn)

theorem WellTyped.not_mem_tail (h : WellTyped attributes (m :: ms)) (ha : a ∈ attributes) (hkey : a.name.toList = m.1) :
    a.name.toList ∉ ms.map Prod.fst := by
  have hcount := h.once a ha
  rw [List.map_cons, ← hkey, List.count_cons_self] at hcount
  rw [← List.count_eq_zero]
  omega

/-- What stands under an unknown key does not matter. -/
theorem replaces_cons_unknown (hkey : ∀ b ∈ attributes, b.name.toList ≠ m.1) :
    Replaces attributes r c (m :: ms) ↔ Replaces attributes r c ms := by
  constructor
  · intro h
    refine ⟨fun b hb value hm => h.given b hb value (List.mem_cons_of_mem _ hm), fun b hb hm => h.kept b hb ?_⟩
    rw [List.map_cons, List.mem_cons, not_or]
    exact ⟨hkey b hb, hm⟩
  · intro h
    refine ⟨fun b hb value hm => ?_, fun b hb hm => h.kept b hb fun hmem => hm (List.mem_cons_of_mem _ hmem)⟩
    rcases List.mem_cons.mp hm with rfl | hm
    · exact absurd rfl (hkey b hb)
    · exact h.given b hb value hm

end Members

section Fields

/-- The field reads the values of the attribute, and stores them without a change to another. -/
def Binds (attributes : List (Attribute ρ)) (f : RecordField ρ) (a : Attribute ρ) : Prop :=
  ∃ read store, f = .of a.name read store ∧ Reads read a.Spells ∧
    ∀ v r, a.get (store v r) = v ∧ ∀ b ∈ attributes, b.name ≠ a.name → b.get (store v r) = b.get r

/-- The fields read the attributes, which are all there is to a record. -/
structure Fits (fields : List (RecordField ρ)) (attributes : List (Attribute ρ)) : Prop where
  binds : List.Forall₂ (Binds attributes) fields attributes
  distinct : (attributes.map (·.name)).Nodup
  ext : ∀ r s : ρ, (∀ a ∈ attributes, a.get r = a.get s) → r = s

theorem Binds.name_eq {f : RecordField ρ} (h : Binds attributes f a) : f.name = a.name := by
  obtain ⟨read, store, rfl, _⟩ := h
  rfl

theorem find_of_forall₂ {present : List (Attribute ρ)} (h : List.Forall₂ (Binds attributes) fields present)
    (hdistinct : (present.map (·.name)).Nodup) (ha : a ∈ present) :
    ∃ f, fields.find? (fun f => f.name.toList == a.name.toList) = some f ∧ Binds attributes f a := by
  induction h with
  | nil => cases ha
  | @cons f b fields present hf _ ih =>
    rw [List.map_cons, List.nodup_cons] at hdistinct
    rcases List.mem_cons.mp ha with rfl | ha
    · exact ⟨f, by simp [hf.name_eq], hf⟩
    · have hne : f.name ≠ a.name := by
        rw [hf.name_eq]
        intro heq
        exact hdistinct.1 (heq ▸ List.mem_map_of_mem ha)
      obtain ⟨g, hg, hbinds⟩ := ih hdistinct.2 ha
      exact ⟨g, by simpa [List.find?_cons, String.toList_inj, hne] using hg, hbinds⟩

theorem Fits.find_known (h : Fits fields attributes) (ha : a ∈ attributes) :
    ∃ f, fields.find? (fun f => f.name.toList == a.name.toList) = some f ∧ Binds attributes f a :=
  find_of_forall₂ h.binds h.distinct ha

theorem Fits.find_unknown (h : Fits fields attributes) {key : List Char} (hkey : ∀ a ∈ attributes, a.name.toList ≠ key) :
    fields.find? (fun f => f.name.toList == key) = none := by
  rw [List.find?_eq_none]
  intro f hf
  obtain ⟨i, hi, rfl⟩ := List.getElem_of_mem hf
  have hj : i < attributes.length := h.binds.length_eq ▸ hi
  have hname : fields[i].name = attributes[i].name := (h.binds.get hi hj).name_eq
  simpa [hname] using hkey _ (List.getElem_mem hj)

theorem Fits.eq_of_name_eq (h : Fits fields attributes) {b : Attribute ρ} (ha : a ∈ attributes) (hb : b ∈ attributes)
    (hname : b.name = a.name) : b = a :=
  List.inj_on_of_nodup_map h.distinct hb ha hname

theorem Reads.unique {α : Type} {read : Reader α} {Spells : α → List Char → Prop} (h : Reads read Spells) {v w : α}
    {cs : List Char} (hv : Spells v cs) (hw : Spells w cs) : v = w := by
  have hread := (h v cs [] [] hv nofun nofun).symm.trans (h w cs [] [] hw nofun nofun)
  cases hread
  rfl

end Fields

section Replacement

theorem Replaces.store (h : Replaces attributes r c (m :: ms)) (hfits : Fits fields attributes) (ha : a ∈ attributes)
    (hkey : a.name.toList = m.1) (hget : a.get s = a.get c) (hothers : ∀ b ∈ attributes, b.name ≠ a.name → b.get s = b.get r) :
    Replaces attributes s c ms where
  given b hb value hm := h.given b hb value (List.mem_cons_of_mem _ hm)
  kept b hb hm := by
    by_cases hname : b.name = a.name
    · rw [hfits.eq_of_name_eq ha hb hname, hget]
    · rw [hothers b hb hname]
      apply h.kept b hb
      rw [List.map_cons, List.mem_cons, not_or, ← hkey, String.toList_inj]
      exact ⟨hname, hm⟩

theorem Replaces.unique (hfits : Fits fields attributes) (hr : Replaces attributes start r ms)
    (hs : Replaces attributes start s ms) : r = s := by
  apply hfits.ext
  intro a ha
  by_cases hm : a.name.toList ∈ ms.map Prod.fst
  · obtain ⟨⟨_, value⟩, hmem, rfl⟩ := List.mem_map.mp hm
    obtain ⟨f, _, read, store, _, hreads, _⟩ := hfits.find_known ha
    exact hreads.unique (hr.given a ha value hmem) (hs.given a ha value hmem)
  · rw [hr.kept a ha hm, hs.kept a ha hm]

theorem Replaces.cons_known (h : Replaces attributes start r ms) (hfits : Fits fields attributes) (ha : a ∈ attributes)
    (htyped : WellTyped attributes (m :: ms)) (hkey : a.name.toList = m.1) (hvalue : a.Spells (a.get s) m.2)
    (hothers : ∀ b ∈ attributes, b.name ≠ a.name → b.get s = b.get r) : Replaces attributes start s (m :: ms) where
  given b hb value hm := by
    by_cases hname : b.name = a.name
    · cases hfits.eq_of_name_eq ha hb hname
      rcases List.mem_cons.mp hm with rfl | hm
      · exact hvalue
      · exact absurd (List.mem_map_of_mem hm) (htyped.not_mem_tail ha hkey)
    · rw [hothers b hb hname]
      apply h.given b hb
      rcases List.mem_cons.mp hm with rfl | hm
      · exact absurd (String.toList_inj.mp hkey).symm hname
      · exact hm
  kept b hb hm := by
    rw [List.map_cons, List.mem_cons, not_or, ← hkey, String.toList_inj] at hm
    rw [hothers b hb hm.1, h.kept b hb hm.2]

theorem WellTyped.exists_replaces (hfits : Fits fields attributes) (h : WellTyped attributes ms) (start : ρ) :
    ∃ r, Replaces attributes start r ms := by
  induction ms with
  | nil => exact ⟨start, nofun, fun _ _ _ => rfl⟩
  | cons m ms ih =>
    obtain ⟨r, hr⟩ := ih h.tail
    by_cases hknown : ∃ a ∈ attributes, a.name.toList = m.1
    · obtain ⟨a, ha, hkey⟩ := hknown
      obtain ⟨v, hv⟩ := h.known a ha m.2 (mem_cons_of_key_eq hkey)
      obtain ⟨f, _, read, store, _, _, hstore⟩ := hfits.find_known ha
      obtain ⟨hget, hothers⟩ := hstore v r
      exact ⟨store v r, hr.cons_known hfits ha h hkey (by rwa [hget]) hothers⟩
    · exact ⟨r, (replaces_cons_unknown fun b hb heq => hknown ⟨b, hb, heq⟩).mpr hr⟩

end Replacement

section Reading
variable {seen : List String} {fuel : Nat} {first : Bool} {cs rest : List Char}

theorem colon_spaced {behind : List Char} (hbehind : Space behind) (cs : List Char) :
    colon (behind ++ ':' :: cs) = .ok cs := by
  rw [colon, skipSpace_spaced hbehind rfl]
  rfl

/-- One member is read into the record, or skipped. -/
theorem member_text {quoted behind before : List Char} (hfits : Fits fields attributes) (hquotes : Quotes quoted m.1)
    (hbehind : Space behind) (hbefore : Space before) (hrest : Ends rest) (htyped : WellTyped attributes (m :: ms))
    (hreplaces : Replaces attributes r c (m :: ms)) (hseen : Fresh attributes seen (m :: ms)) :
    ∃ met s, member fields seen r (quoted ++ '"' :: (behind ++ ':' :: (before ++ (m.2 ++ rest)))) = .ok (met, s, rest) ∧
      Replaces attributes s c ms ∧ Fresh attributes met ms := by
  have hlater : Fresh attributes seen ms := fun a ha hm hmem => hseen a ha hm (List.mem_cons_of_mem _ hmem)
  by_cases hknown : ∃ a ∈ attributes, a.name.toList = m.1
  · obtain ⟨a, ha, hkey⟩ := hknown
    obtain ⟨_, hfind, read, store, rfl, hreads, hstore⟩ := hfits.find_known ha
    obtain ⟨hget, hothers⟩ := hstore (a.get c) r
    have hnew : a.name ∉ seen := fun hm => hseen a ha hm (List.mem_map_of_mem (mem_cons_of_key_eq hkey))
    have hvalue := hreplaces.given a ha m.2 (mem_cons_of_key_eq hkey)
    have hread := hreads (a.get c) m.2 before rest hvalue hbefore hrest
    refine ⟨a.name :: seen, store (a.get c) r, ?_, hreplaces.store hfits ha hkey hget hothers, ?_⟩
    · rw [hkey] at hfind
      simp [member, quotation_quotes hquotes, hfind, RecordField.of, hnew, colon_spaced hbehind, hread, bind, Except.bind,
        Except.map, pure, Except.pure]
    · intro b hb hm
      rcases List.mem_cons.mp hm with hname | hm
      · rw [hname]
        exact htyped.not_mem_tail ha hkey
      · exact hlater b hb hm
  · have hkey : ∀ b ∈ attributes, b.name.toList ≠ m.1 := fun b hb heq => hknown ⟨b, hb, heq⟩
    have hskim := skim_value hbefore (htyped.unknown m List.mem_cons_self hkey) hrest
    refine ⟨seen, r, ?_, (replaces_cons_unknown hkey).mp hreplaces, hlater⟩
    simp [member, quotation_quotes hquotes, hfits.find_unknown hkey, colon_spaced hbehind, hskim, bind, Except.bind, pure,
      Except.pure]

def separator (first : Bool) : List Char := if first then [] else [',']

theorem members_space {space : List Char} (hspace : Space space) (cs : List Char) :
    members fields fuel first seen r (space ++ cs) = members fields fuel first seen r cs := by
  cases fuel with
  | zero => rfl
  | succ fuel => rw [members, members, skipSpace_append hspace]

theorem members_open {front : List Char} {met : List String} (hfront : Space front)
    (h : member fields seen r cs = .ok (met, s, rest)) :
    members fields (fuel + 1) first seen r (separator first ++ (front ++ '"' :: cs)) =
      members fields fuel false met s rest := by
  have hquote := skipSpace_spaced (c := '"') hfront rfl
  cases first with
  | true => simp [members, separator, hquote, openKey, h, bind, Except.bind]
  | false =>
    have hcomma : skipSpace (',' :: (front ++ '"' :: cs)) = ',' :: (front ++ '"' :: cs) := rfl
    simp [members, separator, hcomma, hquote, openKey, h, bind, Except.bind]

theorem members_close (fuel : Nat) (rest : List Char) :
    members fields (fuel + 1) first seen r ('\x7d' :: rest) = .ok (r, rest) := rfl

/-- After a member, the wanted record differs from the new one in the members that are left. -/
theorem members_step (hfits : Fits fields attributes) (htext : MemberText m cs) (htyped : WellTyped attributes (m :: ms))
    (hreplaces : Replaces attributes r c (m :: ms)) (hseen : Fresh attributes seen (m :: ms)) (hrest : Ends rest) :
    ∃ met s, members fields (fuel + 1) first seen r (separator first ++ (cs ++ rest)) = members fields fuel false met s rest ∧
      Replaces attributes s c ms ∧ Fresh attributes met ms := by
  obtain ⟨hfront, hquotes, hbehind, hbefore, hback⟩ := htext
  obtain ⟨met, s, hmember, hs, hmet⟩ :=
    member_text hfits hquotes hbehind hbefore (ends_append hback hrest) htyped hreplaces hseen
  refine ⟨met, s, ?_, hs, hmet⟩
  simp only [List.append_assoc, List.cons_append]
  rw [members_open hfront hmember, members_space hback]

theorem members_run (hfits : Fits fields attributes) (htext : MembersText ms cs) (htyped : WellTyped attributes ms)
    (hreplaces : Replaces attributes r c ms) (hseen : Fresh attributes seen ms) (hfuel : ms.length < fuel)
    (rest : List Char) :
    members fields fuel first seen r (separator first ++ (cs ++ '\x7d' :: rest)) = .ok (c, rest) := by
  induction htext generalizing r seen fuel first with
  | one hmember =>
    obtain ⟨fuel, rfl⟩ : ∃ k, fuel = k + 2 := ⟨fuel - 2, by simp only [List.length_singleton] at hfuel; omega⟩
    obtain ⟨met, s, hstep, hs, _⟩ := members_step hfits hmember htyped hreplaces hseen
      (ends_cons (c := '\x7d') (by decide))
    rw [hstep, members_close, hs.unique hfits ⟨nofun, fun _ _ _ => rfl⟩]
  | more hmember _ ih =>
    obtain ⟨fuel, rfl⟩ : ∃ k, fuel = k + 1 := ⟨fuel - 1, by omega⟩
    obtain ⟨met, s, hstep, hs, hmet⟩ := members_step hfits hmember htyped hreplaces hseen
      (ends_cons (c := ',') (by decide))
    simp only [List.append_assoc, List.cons_append]
    rw [hstep]
    exact ih htyped.tail hs hmet (Nat.lt_of_succ_lt_succ hfuel)

theorem MembersText.length_le (h : MembersText ms cs) : ms.length ≤ cs.length := by
  have hone : ∀ {m cs}, MemberText m cs → 0 < cs.length := by
    rintro m cs ⟨⟩
    simp only [List.length_append, List.length_cons]
    omega
  induction h with
  | one hmember => exact hone hmember
  | more hmember _ ih =>
    have := hone hmember
    simp only [List.length_cons, List.length_append]
    omega

theorem reads_record (hfits : Fits fields attributes) (expected : String) (start : ρ) :
    Reads (record expected fields start) (RecordText attributes start) := by
  rintro r cs front rest ⟨ms, hobject, htyped, hreplaces⟩ hfront hrest
  cases hobject with
  | empty hspace =>
    have hr : r = start := hreplaces.unique hfits ⟨nofun, fun _ _ _ => rfl⟩
    simp only [List.append_assoc, List.cons_append, List.nil_append]
    rw [record, skipSpace_spaced hfront rfl, hr]
    exact (members_space hspace _).trans (members_close _ rest)
  | @members ms cs htext =>
    have hfuel : ms.length < (cs ++ '\x7d' :: rest).length + 1 := by
      have hlength := htext.length_le
      rw [List.length_append]
      omega
    simp only [List.append_assoc, List.cons_append, List.nil_append]
    rw [record, skipSpace_spaced hfront rfl]
    exact members_run hfits htext htyped hreplaces (fun _ _ hm => absurd hm List.not_mem_nil) hfuel rest

theorem whole_text {α : Type} {read : Reader α} {Spells : α → List Char → Prop} (h : Reads read Spells) {v : α}
    {front back : List Char} (hv : Spells v cs) (hfront : Space front) (hback : Space back) :
    whole read (front ++ cs ++ back) = .ok v := by
  have hends : Ends (back ++ []) := ends_append hback nofun
  have hspace : skipSpace (back ++ []) = [] := skipSpace_append hback []
  rw [List.append_nil] at hends hspace
  have hread := h v cs front back hv hfront hends
  rw [List.append_assoc]
  simp [whole, hread, hspace, bind, Except.bind, pure, Except.pure]

end Reading

end FetchStage.Json
