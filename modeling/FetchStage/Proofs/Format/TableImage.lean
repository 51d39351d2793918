import FetchStage.Format.TableImage
import FetchStage.Proofs.Branch.Table
import FetchStage.Proofs.Sequence
import FetchStage.Proofs.Text.Lines
import FetchStage.Proofs.Text.Numerals

/-! # Branch tables survive their text

A table whose records stand in their own slots is read back from its text, and every way to build a table yields such a
table. The texts that are written have one form, and a text of that form is what its table is written as. So text and
table determine each other, and a table that was read from any accepted text is not changed by writing and reading it.
-/
namespace FetchStage.Format
open Text

section Entries
variable {line i bits : Nat} {token : List Char}

/-- The line is entry `i` with the given number: eighteen bytes at most, hexadecimal digits behind an optional plus sign, and
66 bits, of which those of the address, if the entry is valid, have the slot. -/
structure Admits (i : Nat) (token : List Char) (bits : Nat) : Prop where
  width : byteSize token ≤ entryDigits
  number : Numeral 16 token bits ∨ ∃ digits, token = '+' :: digits ∧ Numeral 16 digits bits
  range : bits < 2 ^ 66
  slot : bits.testBit 65 → bits / 2 ^ 32 % 2 ^ 32 / 4 % slotCount = i

theorem Admits.read (h : Admits i token bits) : readUnsigned 16 (Nat.pow 2 128) token = .ok bits :=
  (readUnsigned_numeral (by decide) (by decide)).mpr ⟨Nat.lt_trans h.range (by decide), h.number⟩

theorem unpack_slot_iff : (bits.testBit 65 → bits / 2 ^ 32 % 2 ^ 32 / 4 % slotCount = i) ↔
    ∀ r, BranchRecord.unpack bits = some r → r.pc.slot.val = i := by
  rw [← BranchRecord.isSome_unpack]
  cases hr : BranchRecord.unpack bits with
  | none => simp
  | some r => simp [BranchRecord.slot_of_unpack hr]

theorem readEntry_eq_ok {e : Option BranchRecord} :
    readEntry line token i = .ok e ↔ i < slotCount ∧ ∃ bits, Admits i token bits ∧ BranchRecord.unpack bits = e := by
  constructor
  · intro h
    unfold readEntry at h
    split at h
    · cases h
    split at h
    · cases h
    split at h
    · cases h
    rename_i hi hwidth _ bits hread
    split at h
    · cases h
    rename_i hrange
    have hadmits : ∀ r, BranchRecord.unpack bits = some r → r.pc.slot.val = i := by
      intro r hr
      simp only [hr] at h
      split at h
      · assumption
      · cases h
    have hunpack : BranchRecord.unpack bits = e := by
      cases hu : BranchRecord.unpack bits with
      | none =>
        rw [hu] at h
        exact Except.ok.inj h
      | some r =>
        simp only [hu, hadmits r hu, if_true] at h
        exact Except.ok.inj h
    exact ⟨Nat.not_le.mp hi, bits, ⟨Nat.not_lt.mp hwidth, ((readUnsigned_numeral (by decide) (by decide)).mp hread).2,
      Nat.not_le.mp hrange, unpack_slot_iff.mpr hadmits⟩, hunpack⟩
  · rintro ⟨hi, bits, h, rfl⟩
    have hrange : ¬Nat.pow 2 BranchRecord.entryBits ≤ bits := Nat.not_le.mpr h.range
    unfold readEntry
    rw [if_neg (Nat.not_le.mpr hi), if_neg (Nat.not_lt.mpr h.width), h.read]
    simp only [hrange, if_false]
    cases hu : BranchRecord.unpack bits with
    | none => rfl
    | some r => simp only [unpack_slot_iff.mp h.slot r hu, if_true]

theorem line_of_readEntry {f : LineFault} (h : readEntry line token i = .error f) : f.line = line := by
  unfold readEntry at h
  grind

theorem isPlain_of_mem_capitals {c : Char} (h : c ∈ capitals) : isPlain c ∧ c.utf8Size = 1 := by
  have hall : capitals.all fun c => decide (isPlain c ∧ c.utf8Size = 1) := by decide
  exact of_decide_eq_true (List.all_eq_true.mp hall c h)

theorem mem_entryText {bits : Nat} {c : Char} (h : c ∈ entryText bits) : c ∈ capitals := by
  obtain ⟨d, hd, rfl⟩ := mem_hexDigits h
  exact digitChar_mem_capitals hd

theorem byteSize_of_capitals {cs : List Char} (h : ∀ c ∈ cs, c ∈ capitals) : byteSize cs = cs.length := by
  have hfold : ∀ n, cs.foldl (fun n c => n + c.utf8Size) n = n + cs.length := by
    induction cs with
    | nil => exact fun n => rfl
    | cons c cs ih =>
      intro n
      rw [List.foldl_cons, ih fun x hx => h x (List.mem_cons_of_mem _ hx),
        (isPlain_of_mem_capitals (h c List.mem_cons_self)).2, List.length_cons]
      omega
  exact (hfold 0).trans (Nat.zero_add _)

/-- A packed entry is read back where its record belongs. -/
theorem readEntry_entryText (line : Nat) {bits i : Nat} (hi : i < slotCount) (hlt : bits < 2 ^ 66)
    (hp : ∀ r, BranchRecord.unpack bits = some r → r.pc.slot.val = i) :
    readEntry line (entryText bits) i = .ok (BranchRecord.unpack bits) := by
  have hsize : byteSize (entryText bits) = entryDigits :=
    (byteSize_of_capitals fun c => mem_entryText).trans (length_hexDigits _ _ _)
  have hread : readUnsigned 16 (2 ^ 72) (entryText bits) = .ok bits :=
    readUnsigned_hexDigits true (by decide) (Nat.lt_trans hlt (by decide)) (Nat.lt_trans hlt (by decide))
  have hnumber := ((readUnsigned_numeral (by decide) (by decide)).mp hread).2
  exact readEntry_eq_ok.mpr ⟨hi, bits, ⟨Nat.le_of_eq hsize, hnumber, hlt, unpack_slot_iff.mpr hp⟩, rfl⟩

theorem slot_of_readEntry {r : BranchRecord} (h : readEntry line token i = .ok (some r)) : r.pc.slot.val = i := by
  obtain ⟨_, bits, hadmits, hr⟩ := readEntry_eq_ok.mp h
  exact unpack_slot_iff.mp hadmits.slot r hr

end Entries

section Tables

theorem tableText_eq (t : BranchTable) : tableText t = unlines (t.packed.map entryText) := by
  simp [tableText, unlines, List.flatMap_map]

theorem entryLines_unlines {ls : List (List Char)} (hne : ∀ l ∈ ls, l ≠ []) (h : ∀ l ∈ ls, ∀ c ∈ l, isPlain c) :
    entryLines (unlines ls) = (ls.zipIdx 1).map fun l => (l.2, l.1) := by
  rw [entryLines, numbered_unlines h, List.filter_eq_self]
  intro l hl
  obtain ⟨⟨content, line⟩, hm, rfl⟩ := List.mem_map.mp hl
  simpa using hne content (List.fst_mem_of_mem_zipIdx hm)

theorem readTable_eq_ok {text : List Char} {t : BranchTable} :
    readTable text = .ok t ↔
      ∃ entries, List.Forall₂ (fun l e => readEntry l.1.1 l.1.2 l.2 = .ok e) (entryLines text).zipIdx entries ∧
        tableOfEntries entries = t := by
  rw [readTable, bind_eq_ok]
  simp only [mapM_eq_ok]
  exact ⟨fun ⟨es, hes, h⟩ => ⟨es, hes, Except.ok.inj h⟩, fun ⟨es, hes, h⟩ => ⟨es, hes, congrArg Except.ok h⟩⟩

theorem get_tableOfEntries (entries : List (Option BranchRecord)) (i : Slot) :
    (tableOfEntries entries).slots.get i = entries[i.val]?.join := by
  change (Vector.ofFn _)[i.val] = _
  rw [Vector.getElem_ofFn]

theorem tableOfEntries_toList (t : BranchTable) : tableOfEntries t.slots.toList = t := by
  rcases t with ⟨slots⟩
  apply congrArg BranchTable.mk
  apply Vector.ext
  intro i hi
  rw [Vector.getElem_ofFn]
  simp [hi]

theorem toList_tableOfEntries {entries : List (Option BranchRecord)} (h : entries.length = slotCount) :
    (tableOfEntries entries).slots.toList = entries := by
  apply List.ext_getElem
  · simp [h]
  · intro i hi hentry
    rw [Vector.getElem_toList]
    have hget := get_tableOfEntries entries ⟨i, by omega⟩
    rw [List.getElem?_eq_getElem hentry] at hget
    exact hget

theorem placed_of_readTable {text : List Char} {t : BranchTable} (h : readTable text = .ok t) : t.Placed := by
  obtain ⟨entries, hread, rfl⟩ := readTable_eq_ok.mp h
  obtain ⟨hlen, hread⟩ := List.forall₂_iff_get.mp hread
  intro i r hr
  have hentry : entries[i.val]? = some (some r) := by
    rw [get_tableOfEntries] at hr
    exact Option.join_eq_some_iff.mp hr
  obtain ⟨hi, hget⟩ := List.getElem?_eq_some_iff.mp hentry
  have hslot := hread i.val (by omega) hi
  simp only [List.get_eq_getElem, List.getElem_zipIdx, hget, Nat.zero_add] at hslot
  exact Fin.ext (slot_of_readEntry hslot)

theorem readTable_tableText {t : BranchTable} (h : t.Placed) : readTable (tableText t) = .ok t := by
  have hne : ∀ l ∈ t.packed.map entryText, l ≠ [] := by
    intro l hl
    obtain ⟨bits, _, rfl⟩ := List.mem_map.mp hl
    exact List.ne_nil_of_length_pos (by rw [entryText, length_hexDigits]; decide)
  have hplain : ∀ l ∈ t.packed.map entryText, ∀ c ∈ l, isPlain c := by
    intro l hl c hc
    obtain ⟨bits, _, rfl⟩ := List.mem_map.mp hl
    exact (isPlain_of_mem_capitals (mem_entryText hc)).1
  rw [tableText_eq, readTable_eq_ok, entryLines_unlines hne hplain]
  refine ⟨t.slots.toList, List.forall₂_iff_get.mpr ⟨by simp [BranchTable.packed], ?_⟩, tableOfEntries_toList t⟩
  intro i hi hslot
  have hi' : i < slotCount := by simpa using hslot
  simp only [List.get_eq_getElem, List.getElem_zipIdx, BranchTable.packed, List.getElem_map, Nat.zero_add]
  rw [readEntry_entryText _ hi' (BranchRecord.packed_lt _), BranchRecord.unpack_packed]
  intro r hr
  rw [BranchRecord.unpack_packed, Vector.getElem_toList] at hr
  exact congrArg Fin.val (h ⟨i, hi'⟩ r hr)

end Tables

/-- A line of capital digits that stands for a free slot, or for a valid entry of 66 bits whose address has the slot. -/
structure EntryForm (i : Nat) (line : List Char) : Prop where
  length_eq : line.length = entryDigits
  capital : ∀ c ∈ line, c ∈ capitals
  value : line = List.replicate entryDigits '0' ∨
    capitalValue line < 2 ^ 66 ∧ (capitalValue line).testBit 65 ∧
      capitalValue line / 2 ^ 32 % 2 ^ 32 / 4 % slotCount = i

/-- One such line for each slot, each ended by a newline. -/
def Canonical (text : List Char) : Prop :=
  ∃ ls, ls.length = slotCount ∧ (∀ i line, ls[i]? = some line → EntryForm i line) ∧ text = unlines ls

section Canonical
variable {i : Nat} {line : List Char}

theorem entryForm_entryText {e : Option BranchRecord} (h : ∀ r, e = some r → r.pc.slot.val = i) :
    EntryForm i (entryText ((e.map (·.pack)).getD 0)) := by
  refine ⟨length_hexDigits _ _ _, fun c => mem_entryText, ?_⟩
  cases e with
  | none => exact Or.inl (by decide)
  | some r =>
    have hvalue : capitalValue (entryText r.pack) = r.pack :=
      capitalValue_hexDigits (Nat.lt_trans r.pack_lt (by decide))
    have hunpack := r.unpack_pack
    refine Or.inr ?_
    rw [Option.map_some, Option.getD_some, hvalue]
    refine ⟨r.pack_lt, ?_, ?_⟩
    · rw [← BranchRecord.isSome_unpack, hunpack]
      rfl
    · rw [← BranchRecord.slot_of_unpack hunpack]
      exact h r rfl

theorem canonical_tableText {t : BranchTable} (h : t.Placed) : Canonical (tableText t) := by
  refine ⟨t.packed.map entryText, by simp [BranchTable.packed], ?_, tableText_eq t⟩
  intro i line hline
  simp only [BranchTable.packed, List.map_map, List.getElem?_map, Option.map_eq_some_iff] at hline
  obtain ⟨e, he, rfl⟩ := hline
  apply entryForm_entryText
  rintro r rfl
  obtain ⟨hi, hget⟩ := List.getElem?_eq_some_iff.mp he
  rw [Vector.getElem_toList] at hget
  exact congrArg Fin.val (h ⟨i, by simpa using hi⟩ r hget)

theorem EntryForm.entryText_eq (h : EntryForm i line) : entryText (capitalValue line) = line := by
  have hdigits := hexDigits_capitalValue h.capital
  rwa [h.length_eq] at hdigits

theorem EntryForm.slot_eq (h : EntryForm i line) {r : BranchRecord}
    (hr : BranchRecord.unpack (capitalValue line) = some r) : r.pc.slot.val = i := by
  rcases h.value with hzero | ⟨_, _, hslot⟩
  · have hnone : BranchRecord.unpack (capitalValue line) = none := by
      rw [hzero]
      rfl
    rw [hnone] at hr
    cases hr
  · rw [BranchRecord.slot_of_unpack hr, hslot]

theorem EntryForm.packed_eq (h : EntryForm i line) :
    ((BranchRecord.unpack (capitalValue line)).map (·.pack)).getD 0 = capitalValue line := by
  rcases h.value with hzero | ⟨hlt, hvalid, _⟩
  · rw [hzero]
    rfl
  · rw [← BranchRecord.isSome_unpack] at hvalid
    obtain ⟨r, hr⟩ := Option.isSome_iff_exists.mp hvalid
    rw [hr]
    exact BranchRecord.pack_of_unpack hlt hr

theorem exists_of_canonical {text : List Char} (h : Canonical text) :
    ∃ t : BranchTable, t.Placed ∧ tableText t = text := by
  obtain ⟨ls, hlen, hform, rfl⟩ := h
  let entries := ls.map fun l => BranchRecord.unpack (capitalValue l)
  have hslots : (tableOfEntries entries).slots.toList = entries := toList_tableOfEntries (by simp [entries, hlen])
  refine ⟨tableOfEntries entries, ?_, ?_⟩
  · intro i r hr
    rw [get_tableOfEntries, Option.join_eq_some_iff, List.getElem?_map, Option.map_eq_some_iff] at hr
    obtain ⟨l, hl, hr⟩ := hr
    exact Fin.ext ((hform i.val l hl).slot_eq hr)
  · rw [tableText_eq, BranchTable.packed, hslots, List.map_map, List.map_map]
    apply congrArg unlines
    refine (List.map_congr_left ?_).trans (List.map_id' ls)
    intro l hl
    obtain ⟨i, hi⟩ := List.mem_iff_getElem?.mp hl
    have hf := hform i l hi
    simp only [Function.comp_apply, hf.packed_eq, hf.entryText_eq]

end Canonical

/-- The tables that can be built: from nothing, from records, from a text, and by adding records. -/
inductive Built : BranchTable → Prop
  | empty : Built .empty
  | insert {t : BranchTable} (r : BranchRecord) : Built t → Built (t.insert r)
  | ofRecords (rs : List BranchRecord) : Built (.ofRecords rs)
  | read {text : List Char} {t : BranchTable} : readTable text = .ok t → Built t

theorem Built.placed {t : BranchTable} (h : Built t) : t.Placed := by
  induction h with
  | empty => exact BranchTable.placed_empty
  | insert r _ ih => exact ih.insert r
  | ofRecords rs => exact BranchTable.placed_ofRecords rs
  | read h => exact placed_of_readTable h

/-- Every table that can be built is read back from its text, which is canonical. Every canonical text is read, and is
what its table is written as. So writing and reading again changes no table that was read from any text. -/
theorem table_roundTrip :
    (∀ t, Built t → Canonical (tableText t) ∧ readTable (tableText t) = .ok t) ∧
    (∀ text, Canonical text → ∃ t, readTable text = .ok t ∧ tableText t = text) ∧
    ∀ text t, readTable text = .ok t → readTable (tableText t) = .ok t := by
  refine ⟨?_, ?_, ?_⟩
  · intro t ht
    exact ⟨canonical_tableText ht.placed, readTable_tableText ht.placed⟩
  · intro text htext
    obtain ⟨t, ht, rfl⟩ := exists_of_canonical htext
    exact ⟨t, readTable_tableText ht, rfl⟩
  · intro text t h
    exact readTable_tableText (placed_of_readTable h)

/-- A text with a comment, short entries and blanks; its table with a record added; and a canonical text with a record in
its last slot. -/
theorem table_roundTrip_comment :
    ∃ (loose text : List Char) (t u : BranchTable),
      loose = "# known\n0\n  30000000400000100 // taken".toList ∧ readTable loose = .ok t ∧
      text = unlines (List.replicate 255 (List.replicate 18 '0') ++ ["02000003FC00000000".toList]) ∧ Canonical text ∧
      Built (t.insert ⟨0x408, false, 0x7FC⟩) ∧
      readTable (tableText (t.insert ⟨0x408, false, 0x7FC⟩)) = .ok (t.insert ⟨0x408, false, 0x7FC⟩) ∧
      readTable text = .ok u ∧ tableText u = text ∧ readTable (tableText t) = .ok t := by
  have hread : readTable "# known\n0\n  30000000400000100 // taken".toList =
      .ok (tableOfEntries [none, some ⟨4, true, 0x100⟩]) := by rfl
  have hcanonical :
      Canonical (unlines (List.replicate 255 (List.replicate 18 '0') ++ ["02000003FC00000000".toList])) := by
    refine ⟨_, by rw [List.length_append, List.length_replicate]; rfl, ?_, rfl⟩
    intro i line hline
    by_cases hi : i < 255
    · rw [List.getElem?_append_left (by rwa [List.length_replicate]), List.getElem?_replicate, if_pos hi] at hline
      cases hline
      exact ⟨rfl, mem_capitals_of_all (by decide), Or.inl rfl⟩
    · obtain ⟨hlt, _⟩ := List.getElem?_eq_some_iff.mp hline
      have hlast : i = 255 := by
        rw [List.length_append, List.length_replicate, List.length_singleton] at hlt
        omega
      rw [hlast, List.getElem?_append_right (by rw [List.length_replicate]), List.length_replicate] at hline
      cases hline
      exact ⟨rfl, mem_capitals_of_all (by decide), Or.inr (by rw [hlast]; decide)⟩
  have hbuilt := Built.insert ⟨0x408, false, 0x7FC⟩ (.read hread)
  obtain ⟨u, hu, htext⟩ := table_roundTrip.2.1 _ hcanonical
  exact ⟨_, _, _, u, rfl, hread, rfl, hcanonical, hbuilt, (table_roundTrip.1 _ hbuilt).2, hu, htext,
    table_roundTrip.2.2 _ _ hread⟩

end FetchStage.Format
