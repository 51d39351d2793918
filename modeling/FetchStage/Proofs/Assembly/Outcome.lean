import FetchStage.Proofs.Assembly.Passes

/-! # When a source assembles

Each pass goes through the lines until one of them stops it. The first stops at a label that is malformed or already defined,
whatever the bodies are; the second at a body that does not encode at its own address against the labels of all lines. So a
source assembles if there is no such line, and otherwise the fault is that of the first one, labels before bodies.
-/
namespace FetchStage.Assembly
open Text Isa

section Labels

/-- The label of a line is malformed, or a line before has it too. -/
def Mislabelled (before : List SourceLine) (line : SourceLine) : Prop :=
  ∃ label, line.label = some label ∧ (isLabel label = false ∨ ∃ l ∈ before, l.label = some label)

variable {known : Labels} {count : Nat} {lines before : List SourceLine} {line : SourceLine}

theorem clear_mislabelled :
    Clear Mislabelled lines ↔
      (∀ l ∈ lines, ∀ label, l.label = some label → isLabel label) ∧ (lines.filterMap (·.label)).Nodup := by
  induction lines using List.reverseRecOn with
  | nil => simp [Clear]
  | append_singleton lines line ih =>
    rw [clear_concat, ih, List.filterMap_append]
    cases hl : line.label with
    | none => simp [Mislabelled, hl, or_imp, forall_and]
    | some label =>
      simp only [Mislabelled, hl, List.filterMap_cons, List.filterMap_nil, List.nodup_append, List.mem_append,
        List.mem_filterMap, List.mem_singleton]
      grind

theorem addLabels_append (xs ys : List SourceLine) :
    addLabels known count (xs ++ ys) =
      addLabels known count xs >>= fun labels => addLabels labels (count + xs.countP (·.hasBody)) ys := by
  induction xs generalizing known count with
  | nil => rfl
  | cons x xs ih =>
    have hcount : ∀ labels, addLabels labels (count + (x :: xs).countP (·.hasBody)) ys =
        addLabels labels ((if x.hasBody then count + 1 else count) + xs.countP (·.hasBody)) ys := by
      intro labels
      congr 1
      rw [List.countP_cons]
      split <;> omega
    simp only [List.cons_append, addLabels, hcount]
    split
    · exact ih
    · split
      · rfl
      · split
        · rfl
        · exact ih

theorem isSome_lookup_addLabels {label : List Char} (h : addLabels [] 0 lines = .ok known) :
    (known.lookup label).isSome ↔ ∃ l ∈ lines, l.label = some label := by
  simp only [Option.isSome_iff_exists, addLabels_lookup h]
  constructor
  · rintro ⟨_, _, ⟨before, l, after, rfl, hl, _⟩, _⟩
    exact ⟨l, by simp, hl⟩
  · rintro ⟨l, hl, hlabel⟩
    obtain ⟨before, after, hlines⟩ := List.append_of_mem hl
    exact ⟨_, _, ⟨before, l, after, hlines, hlabel, rfl⟩, rfl⟩

theorem addLabels_line_of_not (h : addLabels [] 0 before = .ok known) (hline : ¬Mislabelled before line) :
    ∃ labels, addLabels known count [line] = .ok labels := by
  cases hl : line.label with
  | none => exact ⟨known, by simp [addLabels, hl]⟩
  | some label =>
    have hvalid : isLabel label = true := Bool.of_not_eq_false fun hbad => hline ⟨label, hl, Or.inl hbad⟩
    have hnew : ¬(known.lookup label).isSome := fun hsome =>
      hline ⟨label, hl, Or.inr ((isSome_lookup_addLabels h).mp hsome)⟩
    exact ⟨(label, .ofIndex count) :: known, by simp [addLabels, hl, hvalid, hnew]⟩

theorem addLabels_line_of_mislabelled (h : addLabels [] 0 before = .ok known) (hline : Mislabelled before line) :
    ∃ fault, addLabels known count [line] = .error (.atLine line.number fault) := by
  obtain ⟨label, hl, hbad⟩ := hline
  by_cases hvalid : isLabel label
  · have hold : (known.lookup label).isSome := by
      rcases hbad with hbad | hbad
      · simp [hvalid] at hbad
      · exact (isSome_lookup_addLabels h).mpr hbad
    exact ⟨.repeatedLabel label, by simp [addLabels, hl, hvalid, hold]⟩
  · exact ⟨.invalidLabel label, by simp [addLabels, hl, hvalid]⟩

theorem addLabels_of_clear (h : Clear Mislabelled lines) : ∃ labels, addLabels [] 0 lines = .ok labels := by
  induction lines using List.reverseRecOn with
  | nil => exact ⟨[], rfl⟩
  | append_singleton lines line ih =>
    obtain ⟨hlines, hline⟩ := clear_concat.mp h
    obtain ⟨known, hknown⟩ := ih hlines
    obtain ⟨labels, hlabels⟩ := addLabels_line_of_not hknown hline
    exact ⟨labels, (addLabels_append _ _).trans (bind_eq_ok.mpr ⟨known, hknown, hlabels⟩)⟩

theorem addLabels_of_first (h : First Mislabelled lines before line) :
    ∃ fault, addLabels [] 0 lines = .error (.atLine line.number fault) := by
  obtain ⟨⟨after, rfl⟩, hline, hbefore⟩ := h
  obtain ⟨known, hknown⟩ := addLabels_of_clear hbefore
  obtain ⟨fault, hfault⟩ := addLabels_line_of_mislabelled hknown hline
  refine ⟨fault, ?_⟩
  rw [addLabels_append, addLabels_append]
  exact bind_eq_error.mpr (Or.inl (bind_eq_error.mpr (Or.inr ⟨known, hknown, hfault⟩)))

end Labels

section Bodies

/-- The labels of all lines, each with the address of the next instruction. -/
def labelMap (lines : List SourceLine) : Labels :=
  lines.zipIdx.filterMap fun p =>
    p.1.label.map fun label => (label, Address.ofIndex ((lines.take p.2).countP (·.hasBody)))

/-- A body that has no word at its address. -/
def Unencodable (labels : Labels) (before : List SourceLine) (line : SourceLine) : Prop :=
  line.hasBody ∧ ∀ w, encodeBody labels (.ofIndex (before.countP (·.hasBody))) line.body ≠ .ok w

variable {labels : Labels} {lines before : List SourceLine} {line : SourceLine}

theorem mem_labelMap {token : List Char} {a : Address} :
    (token, a) ∈ labelMap lines ↔ ∃ n, Defines lines token n ∧ a = .ofIndex n := by
  unfold labelMap
  rw [List.mem_filterMap]
  constructor
  · rintro ⟨⟨l, i⟩, hl, hpair⟩
    obtain ⟨label, hlabel, heq⟩ := Option.map_eq_some_iff.mp hpair
    cases heq
    have hget : lines[i]? = some l := List.mem_zipIdx_iff_getElem?.mp hl
    obtain ⟨hi, rfl⟩ := List.getElem?_eq_some_iff.mp hget
    refine ⟨_, ⟨lines.take i, lines[i], lines.drop (i + 1), ?_, hlabel, rfl⟩, rfl⟩
    rw [List.getElem_cons_drop, List.take_append_drop]
  · rintro ⟨n, ⟨before, l, after, rfl, hl, rfl⟩, rfl⟩
    refine ⟨(l, before.length), List.mem_zipIdx_iff_getElem?.mpr (by simp), ?_⟩
    simp [hl]

/-- The first pass finds the labels of all lines. -/
theorem lookup_labelMap (h : addLabels [] 0 lines = .ok labels) (token : List Char) :
    (labelMap lines).lookup token = labels.lookup token := by
  cases hmap : (labelMap lines).lookup token with
  | some a =>
    obtain ⟨front, back, hsplit, _⟩ := List.lookup_eq_some_iff.mp hmap
    have hmem : (token, a) ∈ labelMap lines := by simp [hsplit]
    exact ((addLabels_lookup h).mpr (mem_labelMap.mp hmem)).symm
  | none =>
    symm
    rw [Option.eq_none_iff_forall_ne_some]
    intro a ha
    have hne := List.lookup_eq_none_iff.mp hmap _ (mem_labelMap.mpr ((addLabels_lookup h).mp ha))
    simp at hne

theorem encodeBody_labelMap (h : addLabels [] 0 lines = .ok labels) (pc : Address) (body : List Char) :
    encodeBody (labelMap lines) pc body = encodeBody labels pc body := by
  apply encodeBody_congr
  intro token
  simp only [distance, lookup_labelMap h]

theorem placedLines_append (xs ys : List SourceLine) :
    placedLines (xs ++ ys) = placedLines xs ++ (ys.filter (·.hasBody)).zipIdx (xs.countP (·.hasBody)) := by
  simp only [placedLines, List.filter_append, List.zipIdx_append, List.countP_eq_length_filter, Nat.zero_add]

theorem placedLines_split (hbody : line.hasBody) (after : List SourceLine) :
    placedLines (before ++ [line] ++ after) = placedLines before ++ (line, before.countP (·.hasBody)) ::
      (after.filter (·.hasBody)).zipIdx ((before ++ [line]).countP (·.hasBody)) := by
  rw [placedLines_append, placedLines_append]
  simp [hbody]

theorem mem_placedLines {i : Nat} :
    (line, i) ∈ placedLines lines ↔
      ∃ before, before ++ [line] <+: lines ∧ line.hasBody ∧ before.countP (·.hasBody) = i := by
  constructor
  · intro h
    induction lines using List.reverseRecOn with
    | nil => simp [placedLines] at h
    | append_singleton lines last ih =>
      rw [placedLines_append, List.mem_append] at h
      rcases h with h | h
      · obtain ⟨before, hbefore, hline⟩ := ih h
        exact ⟨before, List.prefix_append_of_prefix hbefore, hline⟩
      · have hmem := List.mem_filter.mp (List.fst_mem_of_mem_zipIdx h)
        obtain rfl := List.mem_singleton.mp hmem.1
        have hi : i = lines.countP (·.hasBody) := by simpa [hmem.2] using h
        exact ⟨lines, List.prefix_refl _, hmem.2, hi.symm⟩
  · rintro ⟨before, ⟨after, rfl⟩, hbody, rfl⟩
    rw [placedLines_split hbody]
    simp

theorem encodeLine_ok_iff {i : Nat} {w : Word} :
    encodeLine labels (line, i) = .ok w ↔ encodeBody labels (.ofIndex i) line.body = .ok w := by
  unfold encodeLine
  cases encodeBody labels (.ofIndex i) line.body <;> simp

theorem encodeLine_error_iff {i : Nat} {e : AssemblyError} :
    encodeLine labels (line, i) = .error e ↔
      ∃ r, encodeBody labels (.ofIndex i) line.body = .error r ∧ r.atLine line.number = e := by
  unfold encodeLine
  cases encodeBody labels (.ofIndex i) line.body <;> simp

theorem mapM_of_clear (h : Clear (Unencodable labels) lines) :
    ∃ words, (placedLines lines).mapM (encodeLine labels) = .ok words := by
  cases hmap : (placedLines lines).mapM (encodeLine labels) with
  | ok words => exact ⟨words, rfl⟩
  | error e =>
    obtain ⟨front, ⟨line, i⟩, back, hplaced, _, hline⟩ := mapM_eq_error.mp hmap
    have hmem : (line, i) ∈ placedLines lines := by
      rw [hplaced]
      simp
    obtain ⟨before, hbefore, hbody, rfl⟩ := mem_placedLines.mp hmem
    obtain ⟨r, hr, _⟩ := encodeLine_error_iff.mp hline
    exact absurd ⟨hbody, by simp [hr]⟩ (h before line hbefore)

theorem clear_of_mapM {words : List Word} (h : (placedLines lines).mapM (encodeLine labels) = .ok words) :
    Clear (Unencodable labels) lines := by
  rintro before line hbefore ⟨hbody, hno⟩
  obtain ⟨w, hw⟩ := exists_of_mapM_eq_ok h (mem_placedLines.mpr ⟨before, hbefore, hbody, rfl⟩)
  exact hno w (encodeLine_ok_iff.mp hw)

theorem mapM_of_first (h : First (Unencodable labels) lines before line) :
    ∃ r, encodeBody labels (.ofIndex (before.countP (·.hasBody))) line.body = .error r ∧
      (placedLines lines).mapM (encodeLine labels) = .error (r.atLine line.number) := by
  obtain ⟨⟨after, rfl⟩, ⟨hbody, hno⟩, hclear⟩ := h
  obtain ⟨words, hwords⟩ := mapM_of_clear hclear
  cases hr : encodeBody labels (.ofIndex (before.countP (·.hasBody))) line.body with
  | ok w => exact absurd hr (hno w)
  | error r =>
    have hline : encodeLine labels (line, before.countP (·.hasBody)) = .error (r.atLine line.number) :=
      encodeLine_error_iff.mpr ⟨r, hr, rfl⟩
    exact ⟨r, rfl, mapM_eq_error.mpr
      ⟨_, _, _, placedLines_split hbody after, fun p hp => exists_of_mapM_eq_ok hwords hp, hline⟩⟩

end Bodies

section Outcome
variable {text : List Char} {before : List SourceLine} {line : SourceLine}

theorem number_ofContent (number : Nat) (content : List Char) : (SourceLine.ofContent number content).number = number := by
  unfold SourceLine.ofContent
  split <;> rfl

theorem number_eq_length (h : before ++ [line] <+: sourceLines text) : line.number = before.length + 1 := by
  obtain ⟨after, hlines⟩ := h
  have hget : (sourceLines text)[before.length]? = some line := by simp [← hlines]
  simp only [sourceLines, numbered, List.map_map, List.getElem?_map, List.getElem?_zipIdx, Option.map_map,
    Option.map_eq_some_iff] at hget
  obtain ⟨content, _, rfl⟩ := hget
  exact (number_ofContent _ _).trans (Nat.add_comm _ _)

theorem assemble_of_mislabelled (h : First Mislabelled (sourceLines text) before line) :
    ∃ fault, assemble text = .error (.atLine (before.length + 1) fault) := by
  obtain ⟨fault, hfault⟩ := addLabels_of_first h
  rw [number_eq_length h.1] at hfault
  exact ⟨fault, bind_eq_error.mpr (Or.inl hfault)⟩

theorem unencodable_labelMap {labels : Labels} (h : addLabels [] 0 (sourceLines text) = .ok labels) :
    Unencodable (labelMap (sourceLines text)) = Unencodable labels := by
  funext before line
  simp only [Unencodable, encodeBody_labelMap h]

theorem assemble_eq_ok_iff :
    (∃ words, assemble text = .ok words) ↔
      Clear Mislabelled (sourceLines text) ∧ Clear (Unencodable (labelMap (sourceLines text))) (sourceLines text) := by
  constructor
  · rintro ⟨words, h⟩
    obtain ⟨labels, hlabels, hwords⟩ := bind_eq_ok.mp h
    rw [unencodable_labelMap hlabels]
    refine ⟨?_, clear_of_mapM hwords⟩
    rcases clear_or_first Mislabelled (sourceLines text) with hclear | ⟨before, line, hfirst⟩
    · exact hclear
    · obtain ⟨fault, hfault⟩ := addLabels_of_first hfirst
      rw [hlabels] at hfault
      cases hfault
  · rintro ⟨hlabelled, hencodes⟩
    obtain ⟨labels, hlabels⟩ := addLabels_of_clear hlabelled
    rw [unencodable_labelMap hlabels] at hencodes
    obtain ⟨words, hwords⟩ := mapM_of_clear hencodes
    exact ⟨words, bind_eq_ok.mpr ⟨labels, hlabels, hwords⟩⟩

theorem assemble_of_unencodable (hclear : Clear Mislabelled (sourceLines text))
    (h : First (Unencodable (labelMap (sourceLines text))) (sourceLines text) before line) :
    ∃ r, assemble text = .error (Refusal.atLine (before.length + 1) r) := by
  obtain ⟨labels, hlabels⟩ := addLabels_of_clear hclear
  rw [unencodable_labelMap hlabels] at h
  obtain ⟨r, _, hr⟩ := mapM_of_first h
  rw [number_eq_length h.1] at hr
  exact ⟨r, bind_eq_error.mpr (Or.inr ⟨labels, hlabels, hr⟩)⟩

/-- A source assembles if its labels are well formed and distinct and each body encodes at its address, to one word for each
body. Otherwise the line of the fault is the first with a bad label, or if there is none the first whose body does not
encode. -/
theorem assemble_outcome (text : List Char) (h : ∀ o, assemble text ≠ .error (.overflow o)) :
    ((∃ words, assemble text = .ok words) ↔
      (∀ line ∈ sourceLines text, ∀ label, line.label = some label → isLabel label) ∧
      ((sourceLines text).filterMap (·.label)).Nodup ∧
      ∀ before line, before ++ [line] <+: sourceLines text → line.hasBody →
        ∃ w, encodeBody (labelMap (sourceLines text)) (.ofIndex (before.countP (·.hasBody))) line.body = .ok w) ∧
    (∀ words, assemble text = .ok words → words.length = (sourceLines text).countP (·.hasBody)) ∧
    ((∀ words, assemble text ≠ .ok words) →
      ∃ before line fault, assemble text = .error (.atLine (before.length + 1) fault) ∧
        (First Mislabelled (sourceLines text) before line ∨
          Clear Mislabelled (sourceLines text) ∧
            First (Unencodable (labelMap (sourceLines text))) (sourceLines text) before line)) := by
  refine ⟨?_, ?_, ?_⟩
  · rw [assemble_eq_ok_iff, clear_mislabelled, and_assoc]
    simp only [Clear, Unencodable, not_and, not_forall, not_not]
  · intro words hwords
    obtain ⟨labels, _, hencoded⟩ := assemble_eq_ok hwords
    rw [← hencoded.length_eq, length_placedLines]
  · intro hno
    rcases clear_or_first Mislabelled (sourceLines text) with hclear | ⟨before, line, hfirst⟩
    · rcases clear_or_first (Unencodable (labelMap (sourceLines text))) (sourceLines text) with
        hencodes | ⟨before, line, hfirst⟩
      · obtain ⟨words, hwords⟩ := assemble_eq_ok_iff.mpr ⟨hclear, hencodes⟩
        exact absurd hwords (hno words)
      · obtain ⟨r, hr⟩ := assemble_of_unencodable hclear hfirst
        cases r with
        | fault fault => exact ⟨before, line, fault, hr, Or.inr ⟨hclear, hfirst⟩⟩
        | overflow o => exact absurd hr (h o)
    · obtain ⟨fault, hfault⟩ := assemble_of_mislabelled hfirst
      exact ⟨before, line, fault, hfault, Or.inl hfirst⟩

/-- A label defined again on the third line hides an unknown instruction on the second. -/
theorem assemble_outcome_hidden :
    ∃ text, text = "a: nop\nbogus\na: jal a\n".toList ∧
      assemble text = .error (.atLine 3 (.repeatedLabel "a".toList)) ∧ (∀ o, assemble text ≠ .error (.overflow o)) ∧
      ∃ before line fault, assemble text = .error (.atLine (before.length + 1) fault) ∧
        (First Mislabelled (sourceLines text) before line ∨
          Clear Mislabelled (sourceLines text) ∧
            First (Unencodable (labelMap (sourceLines text))) (sourceLines text) before line) := by
  have hfault : assemble "a: nop\nbogus\na: jal a\n".toList = .error (.atLine 3 (.repeatedLabel "a".toList)) := by
    decide +kernel
  have hanswers : ∀ o, assemble "a: nop\nbogus\na: jal a\n".toList ≠ .error (.overflow o) := by
    intro o
    rw [hfault]
    nofun
  refine ⟨_, rfl, hfault, hanswers, (assemble_outcome _ hanswers).2.2 ?_⟩
  intro words
  rw [hfault]
  nofun

end Outcome

end FetchStage.Assembly
