import FetchStage.Proofs.Text.Lines
import Mathlib.Data.List.Induction

/-! # Fields of a text

The fields of all lines, told from the front of the text: a blank adds nothing, newlines included, a comment adds nothing up
to the end of its line, and plain characters that a blank, a comment or the end of the text follows are a field. Texts joined
by a newline have the fields of both.
-/
namespace FetchStage.Text

section Line

/-- Fields split at a blank. -/
theorem fields_append_blank {c : Char} (hc : isBlank c) (front cs : List Char) :
    fields (front ++ c :: cs) = fields front ++ fields cs := by
  simp only [fields, fieldsBy, pieces_eq_splitOnP, List.splitOnP_append_cons front cs hc, List.filter_append]

theorem fields_cons_blank {c : Char} (hc : isBlank c) (cs : List Char) : fields (c :: cs) = fields cs :=
  fields_append_blank hc [] cs

theorem fields_concat_blank {c : Char} (hc : isBlank c) (cs : List Char) : fields (cs ++ [c]) = fields cs :=
  (fields_append_blank hc cs []).trans (List.append_nil _)

theorem fields_dropWhile (cs : List Char) : fields (cs.dropWhile isBlank) = fields cs := by
  induction cs with
  | nil => rfl
  | cons c cs ih =>
    rw [List.dropWhile_cons]
    split
    · rename_i hc
      rw [ih, fields_cons_blank hc]
    · rfl

theorem fields_trim (cs : List Char) : fields (trim cs) = fields cs := by
  have hend : ∀ ds : List Char, fields (ds.reverse.dropWhile isBlank).reverse = fields ds := by
    intro ds
    induction ds using List.reverseRecOn with
    | nil => rfl
    | append_singleton ds c ih =>
      rw [List.reverse_concat, List.dropWhile_cons]
      split
      · rename_i hc
        rw [ih, fields_concat_blank hc]
      · rw [List.reverse_cons, List.reverse_reverse]
  rw [trim, hend, fields_dropWhile]

/-- A field ends where the line does, or at a blank. -/
theorem fields_append {token cs : List Char} (hne : token ≠ []) (ht : ∀ c ∈ token, isBlank c = false)
    (hcs : ∀ c ∈ cs.head?, isBlank c) : fields (token ++ cs) = token :: fields cs := by
  have hone : fields token = [token] := by
    simp [fields, fieldsBy, pieces_eq_splitOnP, List.splitOnP_eq_singleton ht, hne]
  cases cs with
  | nil => rwa [List.append_nil]
  | cons c cs =>
    have hc : isBlank c := hcs c rfl
    rw [fields_append_blank hc, hone, fields_cons_blank hc, List.singleton_append]

/-- Nothing, a blank or a comment comes next. -/
def startsGap : List Char → Bool
  | [] => true
  | c :: cs => isBlank c || startsComment c (cs.headD '\n')

theorem not_startsComment_of_blank {c : Char} (hc : isBlank c) (next : Char) : startsComment c next = false := by
  have hhash : c ≠ '#' := by
    rintro rfl
    exact absurd hc (by decide)
  have hslash : c ≠ '/' := by
    rintro rfl
    exact absurd hc (by decide)
  simp [startsComment, hhash, hslash]

theorem blank_of_startsGap {cs : List Char} (h : startsGap cs) : ∀ c ∈ (beforeComment cs).head?, isBlank c := by
  cases cs with
  | nil => exact fun c hc => by cases hc
  | cons c cs =>
    rw [beforeComment_cons]
    simp only [startsGap, Bool.or_eq_true] at h
    split <;> simp_all

theorem beforeComment_append {token : List Char} (ht : ∀ c ∈ token, isPlain c) (cs : List Char) :
    beforeComment (token ++ cs) = token ++ beforeComment cs := by
  induction token with
  | nil => rfl
  | cons c token ih =>
    have hc := ht c List.mem_cons_self
    simp only [isPlain, Bool.and_eq_true, bne_iff_ne] at hc
    rw [List.cons_append, beforeComment_cons, ih fun x hx => ht x (List.mem_cons_of_mem _ hx)]
    simp [startsComment, hc.1.2, hc.2]

/-- The fields of a line. -/
def lineFields (line : List Char) : List (List Char) := fields (content line)

theorem lineFields_eq (line : List Char) : lineFields line = fields (beforeComment line) := fields_trim _

theorem lineFields_cons_blank {c : Char} (hc : isBlank c) (line : List Char) : lineFields (c :: line) = lineFields line := by
  rw [lineFields_eq, lineFields_eq, beforeComment_cons, not_startsComment_of_blank hc]
  exact fields_cons_blank hc _

theorem lineFields_append {token line : List Char} (hne : token ≠ []) (ht : ∀ c ∈ token, isPlain c)
    (hline : startsGap line) : lineFields (token ++ line) = token :: lineFields line := by
  have hblank : ∀ c ∈ token, isBlank c = false := by
    intro c hc
    have hplain := ht c hc
    simp only [isPlain, Bool.and_eq_true, Bool.not_eq_true'] at hplain
    exact hplain.1.1
  rw [lineFields_eq, lineFields_eq, beforeComment_append ht, fields_append hne hblank (blank_of_startsGap hline)]

end Line

/-- The fields of all lines. -/
def textFields (text : List Char) : List (List Char) := (pieces (· == '\n') text).flatMap lineFields

/-- A line end that is no newline, or no line at all, makes no difference. -/
theorem textFields_eq (text : List Char) : textFields text = (lines text).flatMap lineFields := by
  have hne : pieces (· == '\n') text ≠ [] := by
    rw [pieces_eq_splitOnP]
    exact List.splitOnP_ne_nil _ _
  obtain ⟨front, last, hps⟩ : ∃ front last, pieces (· == '\n') text = front ++ [last] :=
    ⟨_, _, (List.dropLast_concat_getLast hne).symm⟩
  have hended : (front.map dropReturn).flatMap lineFields = front.flatMap lineFields := by
    simp only [List.flatMap_map, lineFields, content_dropReturn]
    rfl
  simp only [textFields, lines, hps, List.dropLast_concat, List.getLast?_concat, List.flatMap_append, ← hended]
  cases last with
  | nil => exact List.append_nil _
  | cons c last => exact (List.flatMap_append ..).symm

/-- Texts joined by a newline. -/
theorem textFields_join (a b : List Char) : textFields (a ++ '\n' :: b) = textFields a ++ textFields b := by
  have hnl : (fun c => c == '\n') '\n' = true := rfl
  simp only [textFields, pieces_eq_splitOnP, List.splitOnP_append_cons (p := fun c => c == '\n') a b hnl,
    List.flatMap_append]

theorem textFields_line {line : List Char} (h : '\n' ∉ line) : textFields line = lineFields line := by
  have hline : ∀ c ∈ line, (c == '\n') = false := by
    intro c hc
    rw [beq_eq_false_iff_ne]
    rintro rfl
    exact h hc
  simp [textFields, pieces_eq_splitOnP, List.splitOnP_eq_singleton hline]

/-- The text up to its first newline. -/
def FirstLine (text line : List Char) : Prop := '\n' ∉ line ∧ (text = line ∨ ∃ rest, text = line ++ '\n' :: rest)

theorem exists_firstLine (text : List Char) : ∃ line, FirstLine text line := by
  by_cases h : '\n' ∈ text
  · obtain ⟨line, rest, rfl, hline⟩ := List.eq_append_cons_of_mem h
    exact ⟨line, hline, Or.inr ⟨rest, rfl⟩⟩
  · exact ⟨text, h, Or.inl rfl⟩

theorem FirstLine.startsGap {text line : List Char} (h : FirstLine text line) (hgap : startsGap text) : startsGap line := by
  rcases h with ⟨_, rfl | ⟨rest, rfl⟩⟩
  · exact hgap
  · cases line with
    | nil => rfl
    | cons c line =>
      have hnext : (line ++ '\n' :: rest).headD '\n' = line.headD '\n' := by cases line <;> rfl
      rwa [List.cons_append, Text.startsGap, hnext] at hgap

/-- What comes before a text, on its first line, adds the fields that it adds to that line. -/
theorem textFields_append {front text : List Char} (added : List (List Char)) (hfront : '\n' ∉ front)
    (h : ∀ line, FirstLine text line → lineFields (front ++ line) = added ++ lineFields line) :
    textFields (front ++ text) = added ++ textFields text := by
  obtain ⟨line, hline⟩ := exists_firstLine text
  have hadded := h line hline
  have hnot : '\n' ∉ front ++ line := by simp [hfront, hline.1]
  rcases hline with ⟨hnl, rfl | ⟨rest, rfl⟩⟩
  · rw [textFields_line hnot, textFields_line hnl, hadded]
  · rw [← List.append_assoc, textFields_join, textFields_join, textFields_line hnot, textFields_line hnl, hadded,
      List.append_assoc]

theorem textFields_cons_blank {c : Char} (hc : isBlank c) (text : List Char) : textFields (c :: text) = textFields text := by
  by_cases hnl : c = '\n'
  · subst hnl
    exact textFields_join [] text
  · have hfront : '\n' ∉ [c] := by simpa using Ne.symm hnl
    exact textFields_append [] hfront fun line _ => lineFields_cons_blank hc line

/-- A comment lasts to the end of its line. -/
theorem textFields_comment {mark note text : List Char} (hmark : mark = ['#'] ∨ mark = ['/', '/']) (hnote : '\n' ∉ note)
    (htext : ∀ c ∈ text.head?, c = '\n') : textFields (mark ++ note ++ text) = textFields text := by
  have hfront : '\n' ∉ mark ++ note := by
    rcases hmark with rfl | rfl <;> simpa using hnote
  apply textFields_append [] hfront
  rintro line ⟨hnl, hline⟩
  have hnil : line = [] := by
    cases line with
    | nil => rfl
    | cons c line =>
      have hc : c = '\n' := by
        rcases hline with rfl | ⟨rest, rfl⟩ <;> exact htext c rfl
      exact absurd (hc ▸ List.mem_cons_self) hnl
  have hcut : beforeComment (mark ++ note) = [] := by
    rcases hmark with rfl | rfl <;> exact beforeComment_cons ..
  rw [hnil, List.append_nil, lineFields_eq, hcut]
  rfl

theorem textFields_append_token {token text : List Char} (hne : token ≠ []) (ht : ∀ c ∈ token, isPlain c)
    (hgap : startsGap text) : textFields (token ++ text) = token :: textFields text := by
  have hfront : '\n' ∉ token := fun hm => absurd (ht _ hm) (by decide)
  exact textFields_append [token] hfront fun line hline => lineFields_append hne ht (hline.startsGap hgap)

end FetchStage.Text
