import FetchStage.Branch.Table
import Mathlib.Algebra.Group.Nat.Defs

/-! # Packed records and their slots

The fields of a packed record do not overlap, so a record and a number of 66 bits with the valid mark determine each
other. In a table that is filled record by record, an occupied slot is the slot of its own address.
-/
namespace FetchStage

namespace BranchRecord

theorem pack_eq (r : BranchRecord) :
    r.pack = 2 ^ 65 + r.taken.toNat * 2 ^ 64 + r.pc.toNat * 2 ^ 32 + r.target.toNat := rfl

theorem pack_lt (r : BranchRecord) : r.pack < 2 ^ 66 := by
  have htaken := r.taken.toNat_le
  have hpc := r.pc.isLt
  have htarget := r.target.isLt
  rw [pack_eq]
  omega

theorem unpack_pack (r : BranchRecord) : unpack r.pack = some r := by
  have htaken := r.taken.toNat_le
  have hpc := r.pc.isLt
  have htarget := r.target.isLt
  have hpack := r.pack_eq
  have hvalid : r.pack.testBit 65 := by
    rw [Nat.testBit_eq_decide_div_mod_eq, decide_eq_true_iff]
    omega
  have hdirection : r.pack.testBit 64 = r.taken := by
    rw [Bool.eq_iff_iff, ← Bool.toNat_eq_one, ← Bool.toNat_eq_one, Nat.toNat_testBit]
    omega
  have haddress : BitVec.ofNat 32 (r.pack / Nat.pow 2 32) = r.pc := by
    apply BitVec.eq_of_toNat_eq
    rw [BitVec.toNat_ofNat, Nat.pow_eq]
    omega
  have hto : BitVec.ofNat 32 r.pack = r.target := by
    apply BitVec.eq_of_toNat_eq
    rw [BitVec.toNat_ofNat]
    omega
  rw [unpack, if_pos hvalid, hdirection, haddress, hto]

/-- What an entry holds is read off its packed form, a free one included. -/
theorem unpack_packed (e : Option BranchRecord) : unpack ((e.map (·.pack)).getD 0) = e := by
  cases e with
  | none => rfl
  | some r => exact r.unpack_pack

theorem packed_lt (e : Option BranchRecord) : (e.map (·.pack)).getD 0 < 2 ^ 66 := by
  cases e with
  | none => exact Nat.two_pow_pos _
  | some r => exact r.pack_lt

theorem isSome_unpack (bits : Nat) : (unpack bits).isSome = bits.testBit 65 := by
  unfold unpack
  split <;> simp_all

theorem pack_of_unpack {bits : Nat} {r : BranchRecord} (hlt : bits < 2 ^ 66) (h : unpack bits = some r) :
    r.pack = bits := by
  unfold unpack at h
  split at h
  · rename_i hvalid
    cases h
    rw [Nat.testBit_eq_decide_div_mod_eq, decide_eq_true_iff] at hvalid
    rw [pack_eq, Nat.toNat_testBit]
    simp only [BitVec.toNat_ofNat, Nat.pow_eq]
    omega
  · cases h

/-- The slot of a packed record, by the bits of its address. -/
theorem slot_of_unpack {bits : Nat} {r : BranchRecord} (h : unpack bits = some r) :
    r.pc.slot.val = bits / 2 ^ 32 % 2 ^ 32 / 4 % slotCount := by
  unfold unpack at h
  split at h
  · cases h
    simp only [Address.slot, Slot.wrap, Address.wordIndex, BitVec.toNat_ofNat, Nat.pow_eq]
  · cases h

end BranchRecord

namespace BranchTable

theorem lookup_eq_some {t : BranchTable} {pc : Address} {b : BranchRecord} :
    t.lookup pc = some b ↔ t.slots.get pc.slot = some b ∧ b.pc = pc := by
  simp [lookup, Option.filter_eq_some_iff]

/-- Every record stands in the slot of its own address. -/
def Placed (t : BranchTable) : Prop := ∀ i r, t.slots.get i = some r → r.pc.slot = i

theorem placed_empty : empty.Placed := by
  intro i r hr
  have hnone : empty.slots.get i = none := Vector.getElem_replicate _
  rw [hnone] at hr
  cases hr

theorem Placed.insert {t : BranchTable} (h : t.Placed) (r : BranchRecord) : (t.insert r).Placed := by
  intro i b hb
  simp only [BranchTable.insert, get_overwrite] at hb
  split at hb
  · rename_i hi
    cases hb
    exact hi
  · exact h i b hb

/-- What inserting any of the records keeps holds of the table built from them. -/
theorem ofRecords_induction {P : BranchTable → Prop} {rs : List BranchRecord} (h0 : P empty)
    (h : ∀ t, ∀ r ∈ rs, P t → P (t.insert r)) : P (ofRecords rs) := by
  have hfold : ∀ t, P t → P (rs.foldl BranchTable.insert t) := by
    induction rs with
    | nil => exact fun t ht => ht
    | cons r rest ih =>
      intro t ht
      exact ih (fun t x hx => h t x (List.mem_cons_of_mem _ hx)) _ (h t r List.mem_cons_self ht)
  exact hfold empty h0

theorem placed_ofRecords (rs : List BranchRecord) : (ofRecords rs).Placed :=
  ofRecords_induction placed_empty fun _ r _ ht => ht.insert r

end BranchTable

end FetchStage
