import FetchStage.Text.Lines
import Mathlib.Data.List.TakeWhile

/-! # Lines of plain text

A text that is put together from lines, each ended by a newline, is split into the same lines again. A line without
blanks and comment marks is its own content.
-/
namespace FetchStage.Text

theorem pieces_eq_splitOnP (separator : Char → Bool) (cs : List Char) : pieces separator cs = cs.splitOnP separator := by
  induction cs with
  | nil => simp [pieces]
  | cons c cs ih =>
    unfold pieces at ih ⊢
    rw [List.foldr_cons, ih, List.splitOnP_cons_eq_if_modifyHead]
    split
    · rfl
    · obtain ⟨p, ps, hp⟩ := List.exists_cons_of_ne_nil (List.splitOnP_ne_nil separator cs)
      simp only [hp, List.modifyHead_cons]

theorem pieces_append_cons {separator : Char → Bool} {l : List Char} {s : Char} (hl : ∀ c ∈ l, separator c = false)
    (hs : separator s) (rest : List Char) : pieces separator (l ++ s :: rest) = l :: pieces separator rest := by
  rw [pieces_eq_splitOnP, pieces_eq_splitOnP, List.splitOnP_append_cons_of_forall_mem hl s hs]

/-- The text that has these lines. -/
def unlines (ls : List (List Char)) : List Char := ls.flatMap (· ++ ['\n'])

theorem pieces_unlines_append {ls : List (List Char)} (h : ∀ l ∈ ls, '\n' ∉ l) (cs : List Char) :
    pieces (· == '\n') (unlines ls ++ cs) = ls ++ pieces (· == '\n') cs := by
  induction ls with
  | nil => rfl
  | cons l ls ih =>
    have hl : ∀ c ∈ l, (c == '\n') = false := by
      intro c hc
      rw [beq_eq_false_iff_ne]
      rintro rfl
      exact h l List.mem_cons_self hc
    have htext : unlines (l :: ls) ++ cs = l ++ '\n' :: (unlines ls ++ cs) := by simp [unlines]
    rw [htext, pieces_append_cons hl rfl, ih fun x hx => h x (List.mem_cons_of_mem _ hx), List.cons_append]

/-- Lines that are ended by newlines stand before the lines of what follows. -/
theorem lines_unlines_append {ls : List (List Char)} (h : ∀ l ∈ ls, '\n' ∉ l) (cs : List Char) :
    lines (unlines ls ++ cs) = ls.map dropReturn ++ lines cs := by
  have hne : pieces (· == '\n') cs ≠ [] := by
    rw [pieces_eq_splitOnP]
    exact List.splitOnP_ne_nil _ _
  obtain ⟨front, last, hps⟩ : ∃ front last, pieces (· == '\n') cs = front ++ [last] :=
    ⟨_, _, (List.dropLast_concat_getLast hne).symm⟩
  simp only [lines, pieces_unlines_append h, hps, ← List.append_assoc, List.dropLast_concat, List.getLast?_concat,
    List.map_append]
  cases last with
  | nil => rfl
  | cons c last => exact List.append_assoc _ _ _

theorem dropReturn_of_not_mem {l : List Char} (h : '\r' ∉ l) : dropReturn l = l := by
  unfold dropReturn
  split
  · rename_i hlast
    exact absurd (List.mem_of_getLast? hlast) h
  · rfl

theorem lines_unlines {ls : List (List Char)} (h : ∀ l ∈ ls, '\n' ∉ l ∧ '\r' ∉ l) : lines (unlines ls) = ls := by
  have hkeep : ls.map dropReturn = ls :=
    (List.map_congr_left fun l hl => dropReturn_of_not_mem (h l hl).2).trans (List.map_id' ls)
  have hlines := lines_unlines_append (fun l hl => (h l hl).1) []
  rw [hkeep, List.append_nil] at hlines
  exact hlines.trans (List.append_nil ls)

theorem trim_of_not_blank {cs : List Char} (h : ∀ c ∈ cs, isBlank c = false) : trim cs = cs := by
  have hdrop : ∀ ds : List Char, (∀ c ∈ ds, isBlank c = false) → ds.dropWhile isBlank = ds := by
    intro ds hds
    cases ds with
    | nil => rfl
    | cons c ds => rw [List.dropWhile_cons_of_neg (by simp [hds c List.mem_cons_self])]
  unfold trim
  rw [hdrop cs h, hdrop cs.reverse fun c hc => h c (List.mem_reverse.mp hc), List.reverse_reverse]

theorem beforeComment_of_not_mem {cs : List Char} (hhash : '#' ∉ cs) (hslash : '/' ∉ cs) : beforeComment cs = cs := by
  unfold beforeComment
  rw [List.takeWhile_eq_self_iff.mpr]
  · apply List.map_fst_zip
    simp only [List.length_append, List.length_drop, List.length_singleton]
    omega
  · rintro ⟨c, next⟩ hp
    have hc : c ∈ cs := (List.of_mem_zip hp).1
    have h1 : c ≠ '#' := fun h => hhash (h ▸ hc)
    have h2 : c ≠ '/' := fun h => hslash (h ▸ hc)
    simp [startsComment, h1, h2]

section Return

theorem beforeComment_cons (c : Char) (cs : List Char) :
    beforeComment (c :: cs) = if startsComment c (cs.headD '\n') then [] else c :: beforeComment cs := by
  unfold beforeComment
  cases cs <;> simp [List.takeWhile_cons] <;> split <;> simp_all

theorem beforeComment_concat_return (cs : List Char) :
    beforeComment (cs ++ ['\r']) = beforeComment cs ++ ['\r'] ∨ beforeComment (cs ++ ['\r']) = beforeComment cs := by
  induction cs with
  | nil => exact Or.inl rfl
  | cons c cs ih =>
    have hstarts : startsComment c ((cs ++ ['\r']).headD '\n') = startsComment c (cs.headD '\n') := by
      cases cs <;> simp [startsComment]
    rw [List.cons_append, beforeComment_cons, beforeComment_cons, hstarts]
    split
    · exact Or.inr rfl
    · rcases ih with ih | ih
      · exact Or.inl (by rw [ih, List.cons_append])
      · exact Or.inr (by rw [ih])

theorem trim_concat_blank {c : Char} (hc : isBlank c) (cs : List Char) : trim (cs ++ [c]) = trim cs := by
  unfold trim
  rw [List.dropWhile_append]
  split
  · rename_i hnil
    simp [hc, List.isEmpty_iff.mp hnil]
  · simp [hc]

/-- A carriage return at its end says nothing about a line. -/
theorem content_dropReturn (l : List Char) : content (dropReturn l) = content l := by
  unfold dropReturn
  split
  · rename_i hlast
    obtain ⟨ds, rfl⟩ := List.getLast?_eq_some_iff.mp hlast
    rw [List.dropLast_concat, content, content]
    rcases beforeComment_concat_return ds with h | h
    · rw [h, trim_concat_blank (by decide)]
    · rw [h]
  · rfl

end Return

/-- The character neither separates nor starts a comment. -/
def isPlain (c : Char) : Bool := !isBlank c && c != '#' && c != '/'

theorem content_of_plain {cs : List Char} (h : ∀ c ∈ cs, isPlain c) : content cs = cs := by
  have hnot : ∀ c, isPlain c = false → c ∉ cs := by
    intro c hc hm
    have := h c hm
    rw [hc] at this
    cases this
  rw [content, beforeComment_of_not_mem (hnot '#' rfl) (hnot '/' rfl)]
  apply trim_of_not_blank
  intro c hc
  have hp := h c hc
  simp only [isPlain, Bool.and_eq_true, Bool.not_eq_true'] at hp
  exact hp.1.1

/-- Lines of plain characters are read as they are, numbered from one. -/
theorem numbered_unlines {ls : List (List Char)} (h : ∀ l ∈ ls, ∀ c ∈ l, isPlain c) :
    numbered (unlines ls) = (ls.zipIdx 1).map fun l => (l.2, l.1) := by
  have hends : ∀ l ∈ ls, '\n' ∉ l ∧ '\r' ∉ l := by
    intro l hl
    constructor <;> exact fun hm => absurd (h l hl _ hm) (by decide)
  unfold numbered
  rw [lines_unlines hends]
  apply List.map_congr_left
  rintro ⟨l, i⟩ hm
  rw [content_of_plain (h l (List.fst_mem_of_mem_zipIdx hm))]

end FetchStage.Text
