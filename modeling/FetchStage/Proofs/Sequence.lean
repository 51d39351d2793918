import FetchStage.Count
import Mathlib.Data.List.Forall2
import Mathlib.Data.List.Induction

/-! # Reading a list element by element

A list is read if each element is, and the results stand in the same places. Otherwise the first element that is not read
gives the reason. Whether an element is bad may depend on those before it: either none is, or one is the first.
-/
namespace FetchStage

theorem mapM_eq_ok {ε α β : Type} {f : α → Except ε β} {xs : List α} {ys : List β} :
    xs.mapM f = .ok ys ↔ List.Forall₂ (fun x y => f x = .ok y) xs ys := by
  induction xs generalizing ys with
  | nil =>
    rw [List.mapM_nil, List.forall₂_nil_left_iff]
    exact ⟨fun h => by cases h; rfl, fun h => by rw [h]; rfl⟩
  | cons x xs ih =>
    rw [List.mapM_cons, List.forall₂_cons_left_iff]
    simp only [bind_eq_ok, ih]
    constructor
    · rintro ⟨y, hy, rest, hrest, h⟩
      cases h
      exact ⟨y, rest, hy, hrest, rfl⟩
    · rintro ⟨y, rest, hy, hrest, rfl⟩
      exact ⟨y, hy, rest, hrest, rfl⟩

theorem exists_of_mapM_eq_ok {ε α β : Type} {f : α → Except ε β} {xs : List α} {ys : List β} (h : xs.mapM f = .ok ys)
    {x : α} (hx : x ∈ xs) : ∃ y, f x = .ok y := by
  replace h := mapM_eq_ok.mp h
  induction h with
  | nil => simp at hx
  | cons hy _ ih =>
    rcases List.mem_cons.mp hx with rfl | hx
    · exact ⟨_, hy⟩
    · exact ih hx

theorem mapM_eq_error {ε α β : Type} {f : α → Except ε β} {xs : List α} {e : ε} :
    xs.mapM f = .error e ↔
      ∃ before x after, xs = before ++ x :: after ∧ (∀ y ∈ before, ∃ b, f y = .ok b) ∧ f x = .error e := by
  induction xs with
  | nil =>
    rw [List.mapM_nil]
    constructor
    · intro h
      cases h
    · rintro ⟨before, x, after, h, _⟩
      simp at h
  | cons x xs ih =>
    rw [List.mapM_cons, bind_eq_error]
    constructor
    · rintro (hx | ⟨b, hb, h⟩)
      · exact ⟨[], x, xs, rfl, by simp, hx⟩
      · obtain hrest | ⟨bs, _, h⟩ := bind_eq_error.mp h
        · obtain ⟨before, y, after, rfl, hbefore, hy⟩ := ih.mp hrest
          refine ⟨x :: before, y, after, rfl, ?_, hy⟩
          intro z hz
          rcases List.mem_cons.mp hz with rfl | hz
          · exact ⟨b, hb⟩
          · exact hbefore z hz
        · cases h
    · rintro ⟨before, y, after, h, hbefore, hy⟩
      cases before with
      | nil =>
        cases h
        exact Or.inl hy
      | cons z before =>
        cases h
        obtain ⟨b, hb⟩ := hbefore x List.mem_cons_self
        have hrest := ih.mpr ⟨before, y, after, rfl, fun w hw => hbefore w (List.mem_cons_of_mem _ hw), hy⟩
        exact Or.inr ⟨b, hb, bind_eq_error.mpr (Or.inl hrest)⟩

theorem mapM_of_const {ε α β : Type} {f : α → Except ε β} {xs : List α} {y : β} (h : ∀ x ∈ xs, f x = .ok y) :
    xs.mapM f = .ok (List.replicate xs.length y) := by
  induction xs with
  | nil => rfl
  | cons x xs ih =>
    rw [List.mapM_cons, h x List.mem_cons_self, ih fun z hz => h z (List.mem_cons_of_mem _ hz)]
    rfl

/-- Reading with other reasons gives the same results. -/
theorem mapM_map_mapError {ε δ α β γ : Type} {f : α → Except ε γ} {g : β → Except δ γ} {e : ε → δ} {move : α → β}
    {xs : List α} (h : ∀ x ∈ xs, g (move x) = (f x).mapError e) :
    (xs.map move).mapM g = (xs.mapM f).mapError e := by
  induction xs with
  | nil => rfl
  | cons x xs ih =>
    rw [List.map_cons, List.mapM_cons, List.mapM_cons, h x List.mem_cons_self,
      ih fun z hz => h z (List.mem_cons_of_mem _ hz)]
    cases f x with
    | error _ => rfl
    | ok y => cases xs.mapM f <;> rfl

section First
variable {α : Type} {bad : List α → α → Prop} {xs before : List α} {x : α}

/-- No element is bad behind those before it. -/
def Clear (bad : List α → α → Prop) (xs : List α) : Prop := ∀ before x, before ++ [x] <+: xs → ¬bad before x

/-- The first element that is bad behind those before it. -/
def First (bad : List α → α → Prop) (xs before : List α) (x : α) : Prop :=
  before ++ [x] <+: xs ∧ bad before x ∧ Clear bad before

theorem clear_concat : Clear bad (xs ++ [x]) ↔ Clear bad xs ∧ ¬bad xs x := by
  constructor
  · intro h
    exact ⟨fun before y hy => h before y (List.prefix_append_of_prefix hy), h xs x (List.prefix_refl _)⟩
  · rintro ⟨hxs, hx⟩ before y hy
    rcases List.prefix_concat_iff.mp hy with heq | hy
    · obtain ⟨rfl, rfl⟩ := List.append_singleton_inj.mp heq
      exact hx
    · exact hxs before y hy

theorem clear_or_first (bad : List α → α → Prop) (xs : List α) : Clear bad xs ∨ ∃ before x, First bad xs before x := by
  induction xs using List.reverseRecOn with
  | nil => exact Or.inl fun before x h => by simp at h
  | append_singleton xs x ih =>
    rcases ih with hclear | ⟨before, y, hprefix, hy⟩
    · by_cases hx : bad xs x
      · exact Or.inr ⟨xs, x, List.prefix_refl _, hx, hclear⟩
      · exact Or.inl (clear_concat.mpr ⟨hclear, hx⟩)
    · exact Or.inr ⟨before, y, List.prefix_append_of_prefix hprefix, hy⟩

end First

end FetchStage
