import FetchStage.Buffer

/-! # The ring as a bounded queue

Through `toList` every operation of the buffer is an operation on a plain list. The two pointers and the count are tied
together, and whatever is staged was legal when it was staged: `Sound` says both. All operations keep it, in any order,
so the count stays in its range when a cycle is committed.
-/
namespace FetchStage.Buffer

def Tied (b : Buffer) : Prop := b.writeAt = ringIndex b.readAt b.count

/-- The pointers meet the count, and what is staged can be applied. -/
structure Sound (b : Buffer) : Prop where
  count_le : b.count ≤ bufferDepth
  tied : b.Tied
  room : b.staged.write.isSome → b.count < bufferDepth
  stock : b.staged.read → 0 < b.count

/-- A sound buffer between two cycles. -/
structure Settled (b : Buffer) : Prop extends b.Sound where
  staged_eq : b.staged = {}

theorem settled_empty : empty.Settled where
  count_le := Nat.zero_le _
  tied := rfl
  room := by simp [empty]
  stock := by simp [empty]
  staged_eq := rfl

@[simp] theorem length_toList (b : Buffer) : b.toList.length = b.count := by
  simp [toList]

@[simp] theorem toList_empty : empty.toList = [] := rfl

@[simp] theorem ringIndex_zero (r : Fin bufferDepth) : ringIndex r 0 = r := by
  simp [ringIndex]

theorem peek_eq_head? (b : Buffer) : b.peek = b.toList.head? := by
  cases h : b.count with
  | zero => simp [peek, isEmpty, toList, h]
  | succ n => simp [peek, isEmpty, toList, h, List.range_succ_eq_map]

theorem isSome_peek (b : Buffer) : b.peek.isSome = !b.isEmpty := by
  unfold peek
  cases b.isEmpty <;> rfl

theorem isFull_eq (b : Buffer) : b.isFull = decide (b.toList.length = bufferDepth) := by
  rw [length_toList]
  rfl

theorem isEmpty_eq (b : Buffer) : b.isEmpty = b.toList.isEmpty := by
  rw [Bool.eq_iff_iff, List.isEmpty_iff_length_eq_zero, length_toList]
  simp [isEmpty]

/-- Positions less than a whole turn apart are different slots. -/
theorem ringIndex_ne (r : Fin bufferDepth) {i j : Nat} (hij : i < j) (hj : j < bufferDepth) :
    ringIndex r i ≠ ringIndex r j := by
  intro h
  have hv := congrArg Fin.val h
  simp only [ringIndex, Fin.val_add, Fin.val_ofNat, bufferDepth] at hv hj
  omega

theorem ringIndex_succ (r : Fin bufferDepth) (i : Nat) :
    ringIndex r i + 1 = ringIndex r (i + 1) := by
  apply Fin.ext
  simp only [ringIndex, Fin.val_add, Fin.val_ofNat, Fin.val_one, bufferDepth]
  omega

theorem ringIndex_shift (r : Fin bufferDepth) (i : Nat) :
    ringIndex (r + 1) i = ringIndex r (i + 1) := by
  apply Fin.ext
  simp only [ringIndex, Fin.val_add, Fin.val_ofNat, Fin.val_one, bufferDepth]
  omega

section Staging
variable {b : Buffer}

@[simp] theorem toList_stageWrite (e : BufferEntry) : (b.stageWrite e).toList = b.toList := by
  unfold stageWrite
  split <;> rfl

@[simp] theorem toList_stageRead : b.stageRead.toList = b.toList := by
  unfold stageRead
  split <;> rfl

@[simp] theorem toList_stageFlush : b.stageFlush.toList = b.toList := rfl

@[simp] theorem isEmpty_stageWrite (e : BufferEntry) : (b.stageWrite e).isEmpty = b.isEmpty := by
  unfold stageWrite
  split <;> rfl

theorem staged_stageWrite (e : BufferEntry) :
    (b.stageWrite e).staged = if b.acceptsWrite then { b.staged with write := some e } else b.staged := by
  unfold stageWrite
  split <;> rfl

theorem staged_stageRead : b.stageRead.staged = { b.staged with read := b.staged.read || !b.isEmpty } := by
  unfold stageRead
  cases b.isEmpty <;> simp

theorem Sound.stageWrite (hb : b.Sound) (e : BufferEntry) : (b.stageWrite e).Sound := by
  unfold Buffer.stageWrite
  split
  · rename_i ha
    have hroom : b.count < bufferDepth := by
      have hc := hb.count_le
      simp only [acceptsWrite, isFull, Bool.and_eq_true, Bool.not_eq_true', beq_eq_false_iff_ne] at ha
      omega
    exact ⟨hb.count_le, hb.tied, fun _ => hroom, hb.stock⟩
  · exact hb

theorem Sound.stageRead (hb : b.Sound) : b.stageRead.Sound := by
  unfold Buffer.stageRead
  split
  · exact hb
  · rename_i he
    have hstock : 0 < b.count := by
      simp only [isEmpty, beq_iff_eq] at he
      omega
    exact ⟨hb.count_le, hb.tied, hb.room, fun _ => hstock⟩

theorem Sound.stageFlush (hb : b.Sound) : b.stageFlush.Sound :=
  ⟨hb.count_le, hb.tied, hb.room, hb.stock⟩

theorem Sound.ite {c : Buffer} (p : Prop) [Decidable p] (hb : b.Sound) (hc : c.Sound) :
    (if p then b else c).Sound := by
  split
  · exact hb
  · exact hc

end Staging

section Commit
variable {b : Buffer}

@[simp] theorem staged_applyWrite : b.applyWrite.staged = b.staged := by
  unfold applyWrite
  split <;> rfl

theorem count_applyWrite : b.applyWrite.count = b.count + b.staged.write.isSome.toNat := by
  unfold applyWrite
  cases h : b.staged.write <;> simp

theorem toList_applyWrite (hb : b.Sound) : b.applyWrite.toList = b.toList ++ b.staged.write.toList := by
  unfold applyWrite
  cases hw : b.staged.write with
  | none => simp
  | some e =>
    have hc : b.count < bufferDepth := hb.room (by simp [hw])
    have hkeep : ∀ i ∈ List.range b.count,
        (overwrite b.ring b.writeAt e).get (ringIndex b.readAt i) = b.ring.get (ringIndex b.readAt i) := by
      intro i hi
      have hne := ringIndex_ne b.readAt (List.mem_range.mp hi) hc
      rw [← hb.tied] at hne
      rw [get_overwrite, if_neg hne.symm]
    have hnew : (overwrite b.ring b.writeAt e).get (ringIndex b.readAt b.count) = e := by
      rw [← hb.tied, get_overwrite, if_pos rfl]
    simp only [toList, List.range_succ, List.map_append, List.map_cons, List.map_nil, hnew, Option.toList_some]
    rw [List.map_congr_left hkeep]

theorem toList_applyRead (hs : b.staged.read → 0 < b.count) :
    b.applyRead.toList = if b.staged.read then b.toList.tail else b.toList := by
  unfold applyRead
  split
  · rename_i hr
    obtain ⟨n, hn⟩ : ∃ n, b.count = n + 1 := Nat.exists_eq_add_one.mpr (hs hr)
    simp only [toList, hn, Nat.add_sub_cancel, List.range_succ_eq_map, List.map_cons, List.tail_cons, List.map_map]
    apply List.map_congr_left
    intro i _
    rw [ringIndex_shift]
    rfl
  · rfl

theorem Tied.applyWrite (hb : b.Tied) : b.applyWrite.Tied := by
  unfold Buffer.applyWrite
  split
  · change b.writeAt + 1 = ringIndex b.readAt (b.count + 1)
    rw [hb, ringIndex_succ]
  · exact hb

theorem Tied.applyRead (hb : b.Tied) (hs : b.staged.read → 0 < b.count) : b.applyRead.Tied := by
  unfold Buffer.applyRead
  split
  · rename_i hr
    obtain ⟨n, hn⟩ : ∃ n, b.count = n + 1 := Nat.exists_eq_add_one.mpr (hs hr)
    change b.writeAt = ringIndex (b.readAt + 1) (b.count - 1)
    rw [hn, Nat.add_sub_cancel, ringIndex_shift, ← hn]
    exact hb
  · exact hb

theorem Sound.stock_applyWrite (hb : b.Sound) (hr : b.applyWrite.staged.read) : 0 < b.applyWrite.count := by
  rw [staged_applyWrite] at hr
  have hc := hb.stock hr
  rw [count_applyWrite]
  omega

/-- What a commit does to the entries. A flush leaves none, whatever else is staged. -/
theorem toList_commit (hb : b.Sound) :
    b.commit.toList =
      if b.staged.flush then []
      else (if b.staged.read then b.toList.tail else b.toList) ++ b.staged.write.toList := by
  unfold commit
  split
  · rfl
  · change b.applyWrite.applyRead.toList = _
    rw [toList_applyRead hb.stock_applyWrite, staged_applyWrite, toList_applyWrite hb]
    split
    · rename_i hr
      have hne : b.toList ≠ [] := List.ne_nil_of_length_pos (by simpa using hb.stock hr)
      exact List.tail_append_of_ne_nil hne
    · rfl

theorem count_commit (hb : b.Sound) (hf : b.staged.flush = false) :
    b.commit.count + b.staged.read.toNat = b.count + b.staged.write.isSome.toNat := by
  have hl := congrArg List.length (toList_commit hb)
  rw [length_toList] at hl
  rw [hl]
  cases hr : b.staged.read with
  | false => cases hw : b.staged.write <;> simp [hf]
  | true =>
    have hc := hb.stock hr
    cases hw : b.staged.write <;> simp [hf] <;> omega

theorem count_commit_le (hb : b.Sound) : b.commit.count ≤ bufferDepth := by
  cases hf : b.staged.flush with
  | true => simp [commit, hf]
  | false =>
    have hc := count_commit hb hf
    have hle := hb.count_le
    cases hw : b.staged.write.isSome with
    | false =>
      rw [hw, Bool.toNat_false] at hc
      omega
    | true =>
      have hroom := hb.room hw
      rw [hw, Bool.toNat_true] at hc
      omega

theorem Sound.commit (hb : b.Sound) : b.commit.Settled := by
  have hle := count_commit_le hb
  have htied := hb.tied.applyWrite.applyRead hb.stock_applyWrite
  unfold Buffer.commit at hle ⊢
  split at hle
  · rename_i hf
    rw [if_pos hf]
    exact ⟨⟨hle, rfl, by simp, by simp⟩, rfl⟩
  · rename_i hf
    rw [if_neg hf]
    exact ⟨⟨hle, htied, by simp, by simp⟩, rfl⟩

end Commit

end FetchStage.Buffer
