import FetchStage.Proofs.Format.TableImage

/-! # Which texts are tables

Two counts run over the lines of a table's text: that of all lines, and that of the lines with content, which are its entries.
A text is accepted if there are no more entries than slots and each says what its slot may hold. The table then holds the
entries in order. Otherwise the fault names the line of the first entry that breaks a rule.
-/
namespace FetchStage.Format
open Text

def hasContent (line : List Char) : Bool := !(content line).isEmpty

/-- Entries of a text, one for each line with content. -/
def entryCount (text : List Char) : Nat := (lines text).countP hasContent

/-- Line `n` says `token`, and is entry `j`, both counted from zero. -/
structure EntryLine (text : List Char) (j n : Nat) (token : List Char) : Prop where
  content : ∃ line, (lines text)[n]? = some line ∧ content line = token
  nonempty : token ≠ []
  before : ((lines text).take n).countP hasContent = j

section Lines
variable {text token : List Char} {j n : Nat}

theorem getElem?_filter_zipIdx {α : Type} (p : α → Bool) (xs : List α) (x : α) (k j n : Nat) :
    ((xs.zipIdx k).filter fun l => p l.1)[j]? = some (x, k + n) ↔
      xs[n]? = some x ∧ p x ∧ (xs.take n).countP p = j := by
  induction xs generalizing k j n with
  | nil => simp
  | cons y ys ih =>
    have hlater : ∀ j : Nat, ((ys.zipIdx (k + 1)).filter fun l => p l.1)[j]? ≠ some (x, k) := by
      intro j h
      have hle := List.le_snd_of_mem_zipIdx (List.mem_filter.mp (List.mem_of_getElem? h)).1
      exact absurd hle (by simp)
    cases n with
    | zero =>
      cases hy : p y <;> cases j <;> simp [List.zipIdx_cons, hy, hlater] <;> grind
    | succ n =>
      have hsum : k + (n + 1) = k + 1 + n := by omega
      rw [hsum]
      cases hy : p y with
      | false => simp [List.zipIdx_cons, hy, ih]
      | true =>
        cases j with
        | zero => simp [List.zipIdx_cons, hy, Nat.add_assoc]
        | succ j => simp [List.zipIdx_cons, hy, ih]

theorem getElem?_entryLines : (entryLines text)[j]? = some (n + 1, token) ↔ EntryLine text j n token := by
  have hentries : entryLines text =
      ((((lines text).map content).zipIdx 1).filter fun l => !l.1.isEmpty).map Prod.swap := by
    simp [entryLines, numbered, List.zipIdx_map, List.filter_map, Function.comp_def]
  have hcount : ∀ ls : List (List Char), (ls.map content).countP (fun l => !l.isEmpty) = ls.countP hasContent := fun ls =>
    List.countP_map ..
  have hrank := getElem?_filter_zipIdx (fun l : List Char => !l.isEmpty) ((lines text).map content) token 1 j n
  rw [Nat.add_comm, List.getElem?_map, Option.map_eq_some_iff, ← List.map_take, hcount] at hrank
  rw [hentries, List.getElem?_map, Option.map_eq_some_iff]
  constructor
  · rintro ⟨⟨said, line⟩, h, heq⟩
    obtain ⟨rfl, rfl⟩ := Prod.mk.inj heq
    obtain ⟨hcontent, hne, hbefore⟩ := hrank.mp h
    exact ⟨hcontent, by simpa using hne, hbefore⟩
  · intro h
    exact ⟨(token, n + 1), hrank.mpr ⟨h.content, by simpa using h.nonempty, h.before⟩, rfl⟩

theorem length_entryLines (text : List Char) : (entryLines text).length = entryCount text := by
  have hfst : ((lines text).zipIdx 1).map Prod.fst = lines text := List.zipIdx_map_fst 1 _
  rw [entryCount, ← hfst, List.countP_map]
  simp [entryLines, numbered, List.filter_map, List.countP_eq_length_filter, Function.comp_def, hasContent]

/-- A line that comes earlier is an earlier entry. -/
theorem EntryLine.lt_of_lt {i m : Nat} {other : List Char} (hi : EntryLine text i m other) (h : EntryLine text j n token)
    (hlt : m < n) : i < j := by
  obtain ⟨line, hline, hsaid⟩ := hi.content
  have hcontent : hasContent line := by simpa [hasContent, hsaid] using hi.nonempty
  have hmono : ((lines text).take (m + 1)).countP hasContent ≤ ((lines text).take n).countP hasContent :=
    (List.take_sublist_take_left hlt).countP_le
  rw [List.take_add_one, hline, List.countP_append, hi.before, h.before] at hmono
  simp only [Option.toList_some, List.countP_singleton, hcontent, if_true] at hmono
  omega

theorem EntryLine.lt_entryCount (h : EntryLine text j n token) : j < entryCount text := by
  rw [← length_entryLines]
  exact (List.getElem?_eq_some_iff.mp (getElem?_entryLines.mpr h)).1

theorem exists_entryLine {line : Nat} (h : (entryLines text)[j]? = some (line, token)) :
    ∃ n, line = n + 1 ∧ EntryLine text j n token := by
  have hpos : 1 ≤ line := by
    have hmem : (line, token) ∈ numbered text := (List.mem_filter.mp (List.mem_of_getElem? h)).1
    obtain ⟨⟨raw, i⟩, hm, heq⟩ := List.mem_map.mp hmem
    cases heq
    exact List.le_snd_of_mem_zipIdx hm
  obtain ⟨n, rfl⟩ : ∃ n, line = n + 1 := ⟨line - 1, by omega⟩
  exact ⟨n, rfl, getElem?_entryLines.mp h⟩

end Lines

/-- The line cannot be entry `j`. -/
def Breaks (j : Nat) (token : List Char) : Prop := slotCount ≤ j ∨ ¬∃ bits, Admits j token bits

/-- The numbers of all entries, in order. -/
structure Numbers (text : List Char) (values : List Nat) : Prop where
  length_eq : values.length = entryCount text
  admits : ∀ j n token, EntryLine text j n token → ∃ bits, values[j]? = some bits ∧ Admits j token bits

section Reading
variable {text token : List Char} {line j : Nat}

theorem readEntry_ok_iff : (∃ e, readEntry line token j = .ok e) ↔ ¬Breaks j token := by
  simp only [readEntry_eq_ok, Breaks, not_or, Nat.not_le, not_not]
  constructor
  · rintro ⟨_, hj, bits, h, _⟩
    exact ⟨hj, bits, h⟩
  · rintro ⟨hj, bits, h⟩
    exact ⟨_, hj, bits, h, rfl⟩

/-- A refusal names the first entry that breaks a rule. -/
theorem first_of_readTable {f : LineFault} (h : readTable text = .error f) :
    ∃ j n token, EntryLine text j n token ∧ f.line = n + 1 ∧ Breaks j token ∧
      ∀ i m other, EntryLine text i m other → m < n → ¬Breaks i other := by
  have hread : (entryLines text).zipIdx.mapM (fun l => readEntry l.1.1 l.1.2 l.2) = .error f := by
    rcases bind_eq_error.mp h with h | ⟨_, _, h⟩
    · exact h
    · cases h
  obtain ⟨before, ⟨⟨line, token⟩, j⟩, after, hsplit, hbefore, hfault⟩ := mapM_eq_error.mp hread
  have hat : ∀ (i : Nat) l, (entryLines text)[i]? = some l ↔ (before ++ ((line, token), j) :: after)[i]? = some (l, i) := by
    intro i l
    rw [← hsplit, List.getElem?_zipIdx]
    simp
  have hj : j = before.length := by
    have hget : (entryLines text).zipIdx[before.length]? = some ((line, token), j) := by simp [hsplit]
    rw [List.getElem?_zipIdx, Option.map_eq_some_iff] at hget
    obtain ⟨l, _, hl⟩ := hget
    simpa using (congrArg Prod.snd hl).symm
  obtain ⟨n, rfl, hline⟩ := exists_entryLine ((hat j (line, token)).mpr (by simp [hj]))
  refine ⟨j, n, token, hline, line_of_readEntry hfault, ?_, ?_⟩
  · by_contra hok
    obtain ⟨e, he⟩ := readEntry_ok_iff.mpr hok
    rw [he] at hfault
    cases hfault
  · intro i m other hother hlt
    have hi := hother.lt_of_lt hline hlt
    have hget := (hat i (m + 1, other)).mp (getElem?_entryLines.mpr hother)
    rw [List.getElem?_append_left (by omega)] at hget
    exact readEntry_ok_iff.mp (hbefore _ (List.mem_of_getElem? hget))

theorem exists_values {xs : List ((Nat × List Char) × Nat)} {es : List (Option BranchRecord)}
    (h : List.Forall₂ (fun l e => readEntry l.1.1 l.1.2 l.2 = .ok e) xs es) :
    ∃ values, List.Forall₂ (fun l bits => l.2 < slotCount ∧ Admits l.2 l.1.2 bits) xs values ∧
      values.map BranchRecord.unpack = es := by
  induction h with
  | nil => exact ⟨[], .nil, rfl⟩
  | cons hx _ ih =>
    obtain ⟨hlt, bits, hadmits, rfl⟩ := readEntry_eq_ok.mp hx
    obtain ⟨values, hvalues, rfl⟩ := ih
    exact ⟨bits :: values, .cons ⟨hlt, hadmits⟩ hvalues, rfl⟩

/-- An accepted text has a number for each entry, and the table is made of them. -/
theorem numbers_of_readTable {t : BranchTable} (h : readTable text = .ok t) :
    ∃ values, Numbers text values ∧ values.length ≤ slotCount ∧
      t = tableOfEntries (values.map BranchRecord.unpack) := by
  obtain ⟨entries, hread, rfl⟩ := readTable_eq_ok.mp h
  obtain ⟨values, hvalues, rfl⟩ := exists_values hread
  obtain ⟨hlen, hget⟩ := List.forall₂_iff_get.mp hvalues
  have hat : ∀ (j : Nat) l, (entryLines text)[j]? = some l →
      ∃ bits, values[j]? = some bits ∧ j < slotCount ∧ Admits j l.2 bits := by
    intro j l hl
    have hx : (entryLines text).zipIdx[j]? = some (l, j) := by simp [List.getElem?_zipIdx, hl]
    obtain ⟨hj, hxj⟩ := List.getElem?_eq_some_iff.mp hx
    have hvalue := hget j hj (hlen ▸ hj)
    rw [List.get_eq_getElem, hxj] at hvalue
    exact ⟨_, List.getElem?_eq_getElem _, hvalue⟩
  rw [List.length_zipIdx] at hlen
  refine ⟨values, ⟨hlen.symm.trans (length_entryLines text), ?_⟩, ?_, rfl⟩
  · intro j n token hline
    obtain ⟨bits, hbits, _, hadmits⟩ := hat j _ (getElem?_entryLines.mpr hline)
    exact ⟨bits, hbits, hadmits⟩
  · by_contra hmany
    obtain ⟨_, _, hlt, _⟩ := hat slotCount _ (List.getElem?_eq_getElem (by omega))
    exact absurd hlt (Nat.lt_irrefl _)

theorem size_tableOfEntries {entries : List (Option BranchRecord)} (h : entries.length ≤ slotCount) :
    (tableOfEntries entries).size = entries.countP (·.isSome) := by
  let padded := entries ++ List.replicate (slotCount - entries.length) none
  have hpadded : tableOfEntries entries = tableOfEntries padded := by
    apply congrArg BranchTable.mk
    apply Vector.ext
    intro i hi
    simp only [Vector.getElem_ofFn, padded, List.getElem?_append]
    split
    · rfl
    · rename_i hend
      rw [List.getElem?_eq_none (Nat.not_lt.mp hend), List.getElem?_replicate]
      split <;> rfl
  rw [hpadded, BranchTable.size, toList_tableOfEntries (by simp [padded]; omega)]
  simp [padded, List.countP_append, List.countP_replicate]

end Reading

/-- A text is accepted if it has an entry for each slot at most and every entry says what its slot may hold. The table holds
the entries in order, as many as are valid. A refused text has a first entry that breaks a rule, and its line is named. -/
theorem table_read (text : List Char) :
    ((∃ t, readTable text = .ok t) ↔
      entryCount text ≤ slotCount ∧ ∀ j n token, EntryLine text j n token → ∃ bits, Admits j token bits) ∧
    (∀ t, readTable text = .ok t → ∃ values, Numbers text values ∧
      (∀ j < slotCount, t.entry j = values[j]?.bind BranchRecord.unpack) ∧ t.size = values.countP (·.testBit 65)) ∧
    ∀ f, readTable text = .error f → ∃ j n token, EntryLine text j n token ∧ f.line = n + 1 ∧ Breaks j token ∧
      ∀ i m other, EntryLine text i m other → m < n → ¬Breaks i other := by
  refine ⟨⟨?_, ?_⟩, ?_, ?_⟩
  · rintro ⟨t, ht⟩
    obtain ⟨values, hvalues, hlen, _⟩ := numbers_of_readTable ht
    refine ⟨hvalues.length_eq ▸ hlen, ?_⟩
    intro j n token hline
    obtain ⟨bits, _, hadmits⟩ := hvalues.admits j n token hline
    exact ⟨bits, hadmits⟩
  · rintro ⟨hcount, hadmits⟩
    cases hread : readTable text with
    | ok t => exact ⟨t, rfl⟩
    | error f =>
      obtain ⟨j, n, token, hline, _, hbreaks, _⟩ := first_of_readTable hread
      have hj := hline.lt_entryCount
      rcases hbreaks with hmany | hnone
      · omega
      · exact absurd (hadmits j n token hline) hnone
  · intro t ht
    obtain ⟨values, hvalues, hlen, rfl⟩ := numbers_of_readTable ht
    refine ⟨values, hvalues, ?_, ?_⟩
    · intro j hj
      have hslot : Slot.wrap j = ⟨j, hj⟩ := Fin.ext (Nat.mod_eq_of_lt hj)
      rw [BranchTable.entry, hslot, get_tableOfEntries, List.getElem?_map]
      cases values[j]? <;> rfl
    · rw [size_tableOfEntries (by simpa using hlen), List.countP_map]
      simp only [Function.comp_def, BranchRecord.isSome_unpack]
  · intro f hf
    exact first_of_readTable hf

/-- An accepted text whose second entry is on line four, and a refused one whose record is one entry late, on line five. -/
theorem table_read_late :
    ∃ accepted refused t, accepted = "# known\n+0\n\n30000000400000100 // taken".toList ∧
      readTable accepted = .ok t ∧ refused = "# known\n+0\n\n0\n30000000400000100".toList ∧
      readTable refused = .error ⟨5, .misplaced 4 2⟩ ∧
      entryCount accepted ≤ slotCount ∧ (∃ values, Numbers accepted values ∧ values.countP (·.testBit 65) = 1) ∧
      ∃ j token, EntryLine refused j 4 token ∧ Breaks j token := by
  have haccepted : readTable "# known\n+0\n\n30000000400000100 // taken".toList =
      .ok (tableOfEntries [none, some ⟨4, true, 0x100⟩]) := by rfl
  have hrefused : readTable "# known\n+0\n\n0\n30000000400000100".toList = .error ⟨5, .misplaced 4 2⟩ := by rfl
  obtain ⟨hiff, hvalues, _⟩ := table_read "# known\n+0\n\n30000000400000100 // taken".toList
  obtain ⟨values, hnumbers, _, hsize⟩ := hvalues _ haccepted
  have hone : (tableOfEntries [none, some ⟨4, true, 0x100⟩]).size = 1 := size_tableOfEntries (by decide)
  obtain ⟨j, n, token, hline, hn, hbreaks, _⟩ := (table_read _).2.2 _ hrefused
  cases Nat.succ.inj hn
  exact ⟨_, _, _, rfl, haccepted, rfl, hrefused, (hiff.mp ⟨_, haccepted⟩).1, ⟨values, hnumbers, hsize.symm.trans hone⟩,
    j, token, hline, hbreaks⟩

end FetchStage.Format
