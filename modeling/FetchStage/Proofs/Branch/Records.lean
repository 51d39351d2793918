import FetchStage.Proofs.Branch.Table
import FetchStage.Proofs.Predictor.History
import Mathlib.Data.Finset.Card
import Mathlib.Data.Fintype.Basic

/-! # Tables built from records

A table shows the last record of each index and nothing of the others, so only the order of records that share an index
matters. Its size counts the indices that occur.
-/
namespace FetchStage.BranchTable

/-- The records on an index, in order. -/
def onIndex (rs : List BranchRecord) (i : Nat) : List BranchRecord := rs.filter fun r => r.pc.indexBits.toNat = i

variable {rs : List BranchRecord} {r : BranchRecord} {s : Slot}

theorem indexBits_toNat (a : Address) : a.indexBits.toNat = a.slot.val := by
  simp [Address.indexBits, Address.slot, Slot.wrap, Address.wordIndex, Nat.shiftRight_eq_div_pow]

theorem onIndex_concat (i : Nat) :
    onIndex (rs ++ [r]) i = if r.pc.slot.val = i then onIndex rs i ++ [r] else onIndex rs i := by
  simp only [onIndex, List.filter_append, indexBits_toNat]
  split <;> simp_all

theorem get_ofRecords (rs : List BranchRecord) (s : Slot) : (ofRecords rs).slots.get s = (onIndex rs s.val).getLast? := by
  induction rs using List.reverseRecOn with
  | nil => exact Vector.getElem_replicate _
  | append_singleton rs r ih =>
    have hinsert : ofRecords (rs ++ [r]) = (ofRecords rs).insert r := by simp [ofRecords]
    rw [hinsert, onIndex_concat, insert]
    simp only [get_overwrite, Fin.ext_iff]
    split
    · simp
    · exact ih

theorem isSome_get_ofRecords : ((ofRecords rs).slots.get s).isSome ↔ ∃ r ∈ rs, r.pc.slot = s := by
  rw [get_ofRecords, List.getLast?_isSome, onIndex, Ne, List.filter_eq_nil_iff]
  simp [indexBits_toNat, Fin.ext_iff]

theorem size_eq_card (t : BranchTable) : t.size = (Finset.univ.filter fun s => (t.slots.get s).isSome).card := by
  have hlist : t.slots.toList = (List.finRange slotCount).map t.slots.get := by
    apply List.ext_getElem
    · simp
    · intro i _ _
      simp [Vector.get]
  have huniv : (List.finRange slotCount).toFinset = Finset.univ := List.toFinset_finRange _
  have hcard := (List.nodup_finRange slotCount).card_eq_countP (P := fun s => (t.slots.get s).isSome)
  rw [size, hlist, List.countP_map, ← huniv]
  simpa [Function.comp_def] using hcard.symm

/-- Every slot in use is the index of a record, and of no other slot. -/
theorem size_ofRecords (rs : List BranchRecord) : (ofRecords rs).size = (rs.map (·.pc.indexBits)).toFinset.card := by
  have hindex : (rs.map (·.pc.indexBits)).toFinset =
      (Finset.univ.filter fun s => ((ofRecords rs).slots.get s).isSome).image BitVec.ofFin := by
    ext b
    simp only [List.mem_toFinset, List.mem_map, Finset.mem_image, Finset.mem_filter, Finset.mem_univ, true_and,
      isSome_get_ofRecords]
    constructor
    · rintro ⟨r, hr, rfl⟩
      exact ⟨r.pc.slot, ⟨r, hr, rfl⟩, BitVec.eq_of_toNat_eq (indexBits_toNat r.pc).symm⟩
    · rintro ⟨_, ⟨r, hr, rfl⟩, rfl⟩
      exact ⟨r, hr, BitVec.eq_of_toNat_eq (indexBits_toNat r.pc)⟩
  rw [hindex, size_eq_card, Finset.card_image_of_injective]
  intro s t h
  exact congrArg BitVec.toFin h

/-- What a table shows of the records it was built from. -/
structure Shows (t : BranchTable) (rs : List BranchRecord) : Prop where
  lookup : ∀ pc r, t.lookup pc = some r ↔ (onIndex rs pc.indexBits.toNat).getLast? = some r ∧ r.pc = pc
  entry : ∀ i, t.entry i = (onIndex rs (i % slotCount)).getLast?
  size : t.size = (rs.map (·.pc.indexBits)).toFinset.card

theorem shows_ofRecords (rs : List BranchRecord) : (ofRecords rs).Shows rs where
  lookup pc r := by rw [lookup_eq_some, get_ofRecords, indexBits_toNat]
  entry i := get_ofRecords rs (Slot.wrap i)
  size := size_ofRecords rs

theorem ofRecords_congr {rs' : List BranchRecord} (h : ∀ i, onIndex rs i = onIndex rs' i) :
    ofRecords rs = ofRecords rs' := by
  apply congrArg BranchTable.mk
  apply Vector.ext
  intro i hi
  have hslot := congrArg List.getLast? (h i)
  rwa [← get_ofRecords rs ⟨i, hi⟩, ← get_ofRecords rs' ⟨i, hi⟩] at hslot

/-- The last record of each index decides, whatever comes between. -/
theorem ofRecords_last (rs : List BranchRecord) :
    (ofRecords rs).Shows rs ∧ ∀ rs', (∀ i, onIndex rs i = onIndex rs' i) → ofRecords rs = ofRecords rs' := by
  constructor
  · exact shows_ofRecords rs
  · intro rs' h
    exact ofRecords_congr h

/-- Records at 4 and 0x404 share an index, and the later one stays wherever a record at 8 stands. -/
theorem ofRecords_last_alias :
    ∃ rs rs' : List BranchRecord,
      rs = [⟨4, true, 0x100⟩, ⟨8, false, 0x20⟩, ⟨0x404, true, 0x40⟩] ∧
      rs' = [⟨8, false, 0x20⟩, ⟨4, true, 0x100⟩, ⟨0x404, true, 0x40⟩] ∧
      (∀ i, onIndex rs i = onIndex rs' i) ∧ ofRecords rs = ofRecords rs' ∧
      (ofRecords rs).lookup 4 = none ∧ (ofRecords rs).entry 257 = some ⟨0x404, true, 0x40⟩ ∧ (ofRecords rs).size = 2 := by
  have hsame : ∀ i, onIndex [⟨4, true, 0x100⟩, ⟨8, false, 0x20⟩, ⟨0x404, true, 0x40⟩] i =
      onIndex [⟨8, false, 0x20⟩, ⟨4, true, 0x100⟩, ⟨0x404, true, 0x40⟩] i := by
    intro i
    simp only [onIndex, List.filter_cons, List.filter_nil, Address.indexBits]
    grind
  obtain ⟨hshows, hcongr⟩ := ofRecords_last [⟨4, true, 0x100⟩, ⟨8, false, 0x20⟩, ⟨0x404, true, 0x40⟩]
  refine ⟨_, _, rfl, rfl, hsame, hcongr _ hsame, ?_, ?_, ?_⟩
  · rw [Option.eq_none_iff_forall_ne_some]
    intro r hr
    obtain ⟨hlast, hpc⟩ := (hshows.lookup 4 r).mp hr
    cases hlast
    exact absurd hpc (by decide)
  · rw [hshows.entry]
    rfl
  · rw [hshows.size]
    rfl

end FetchStage.BranchTable
